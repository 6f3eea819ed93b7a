import Mathlib
import LedgerSchema.Proofs.Schema.Rendering
import LedgerSchema.Proofs.Wire.Object

/-!
The fields of a type as the files of the schema declare them: those on the lines of its block, and
of the blocks that are reached from it by what the heads of blocks say they extend. The blocks are
the ones that are read in the texts of the parts. A block that is identified by a key does not say
what it extends, so what its type has from a parent is on the wire but not in the text.
-/

set_option autoImplicit false

namespace LedgerSchema

open Relation

namespace PartOutline

/-- An outline that a text can be read as. -/
structure ReadFrom (o : PartOutline) (text : String) : Prop where
  legible : o.Legible
  text_eq : o.text = text

/-- The namespace is on the first line, whatever follows. -/
theorem ns_eq_of_text_eq {o o' : PartOutline} (h : '\n' ∉ o.ns.toList) (h' : '\n' ∉ o'.ns.toList)
    (htext : o.text = o'.text) : o.ns = o'.ns := by
  have hstart (o : PartOutline) : ∃ rest,
      o.text.toList = ("namespace " ++ o.ns).toList ++ '\n' :: rest := by
    rw [text, unblocks_cons, header, unlines_cons]
    exact ⟨_, by simp [String.toList_append]; rfl⟩
  have hnot {ns : String} (h : '\n' ∉ ns.toList) : '\n' ∉ ("namespace " ++ ns).toList := by
    simp [h]
  obtain ⟨rest, hrest⟩ := hstart o
  obtain ⟨rest', hrest'⟩ := hstart o'
  have heq := hrest.symm.trans ((congrArg String.toList htext).trans hrest')
  have hline := ((append_cons_inj (hnot h) (hnot h')).1 heq).1
  rwa [String.toList_inj, String.append_right_inj] at hline

end PartOutline

structure Block where
  file : PartOutline
  kind : Kind
  name : String
  clause : IdentityClause
  fields : List FieldOutline

namespace Block

def qualifiedName (b : Block) : String := LedgerSchema.qualifiedName b.file.ns b.name

def fieldNames (b : Block) : List String := b.fields.map (·.name)

/-- The file of the block is what the text of a part is read as. -/
structure WrittenIn (b : Block) (parts : List Part) : Prop where
  file : ∃ p ∈ parts, ∃ text, p.text = .ok text ∧ b.file.ReadFrom text
  entity : .model b.kind b.name b.clause b.fields ∈ b.file.entities

structure IsOf (b : Block) (d : TypeDecl) : Prop where
  ns_eq : b.file.ns = d.ns
  name_eq : b.name = d.name

theorem IsOf.qualifiedName_eq {b : Block} {d : TypeDecl} (h : b.IsOf d) :
    b.qualifiedName = d.qualifiedName := by
  rw [qualifiedName, TypeDecl.qualifiedName, h.ns_eq, h.name_eq]

end Block

/-- A block and one that its head can mean by what it says it extends: a block of that name in the
same file, or in one that the file imports it from. -/
structure Extends (parts : List Part) (b c : Block) : Prop where
  written : c.WrittenIn parts
  clause : b.clause = .parent c.name
  inScope : c.file = b.file ∨ c.qualifiedName ∈ b.file.imports

theorem not_extends {parts : List Part} {b c : Block} (h : ∀ name, b.clause ≠ .parent name) :
    ¬ Extends parts b c := fun hc => h c.name hc.clause

def Part.block (p : Part) (m : Model) : Block where
  file := p.outline
  kind := m.kind
  name := m.name
  clause := m.identityClause
  fields := m.fields.map (·.outline)

theorem Part.fieldNames_block (p : Part) (m : Model) :
    (p.block m).fieldNames = m.fields.map (·.name) := by
  rw [Block.fieldNames, block, List.map_map]
  rfl

namespace Registry

variable {r : Registry} {doc : Document} {loaded : Document.Loaded} {parts : List Part}
  {excluded : List String}

/-! Blocks and models. -/

theorem writtenIn_block (hload : doc.load = .ok loaded)
    (h : loaded.registry.reflect excluded = .ok parts) {p : Part} (hp : p ∈ parts)
    (hline : p.OneLine) {m : Model} (hm : m ∈ p.models) : (p.block m).WrittenIn parts where
  file := ⟨p, hp, _, text_eq_outline (Document.built_of_load hload) h hp,
    legible_outline hload h hp hline, rfl⟩
  entity := List.mem_map_of_mem (SchemaEntity.mem_filterMap_model?_iff.1 hm)

/-- A block is read in the file of its namespace, and is that of a model if each line of the file is
one. -/
theorem exists_part_of_writtenIn (hload : doc.load = .ok loaded)
    (h : loaded.registry.reflect excluded = .ok parts) {b : Block} (hb : b.WrittenIn parts) :
    ∃ p ∈ parts, p.ns = b.file.ns ∧ (p.OneLine → ∃ m ∈ p.models, b = p.block m) := by
  obtain ⟨⟨p, hp, text, htext, hread⟩, hentity⟩ := hb
  have houtline := text_eq_outline (Document.built_of_load hload) h hp
  obtain rfl := Except.ok.inj (houtline.symm.trans htext)
  have hns : '\n' ∉ p.outline.ns.toList :=
    not_mem_of_checkNamespace (wellNamed_outline hload h hp).ns (by decide) (by decide)
  refine ⟨p, hp, (PartOutline.ns_eq_of_text_eq hread.legible.ns hns hread.text_eq).symm,
    fun hline => ?_⟩
  have hfile := (PartOutline.text_inj hread.legible (legible_outline hload h hp hline)).1
    hread.text_eq
  rw [hfile] at hentity
  obtain ⟨e, he, houtline⟩ := List.mem_map.1 hentity
  cases e with
  | enum e => cases houtline
  | model m =>
    refine ⟨m, SchemaEntity.mem_filterMap_model?_iff.2 he, ?_⟩
    obtain ⟨file, kind, name, clause, fields⟩ := b
    cases houtline
    exact congrArg (Block.mk · _ _ _ _) hfile

/-- A file has one block of a name. -/
theorem eq_of_writtenIn (hload : doc.load = .ok loaded)
    (h : loaded.registry.reflect excluded = .ok parts) {b c : Block} (hb : b.WrittenIn parts)
    (hc : c.WrittenIn parts) (hline : ∀ p ∈ parts, p.ns = c.file.ns → p.OneLine)
    (hns : b.file.ns = c.file.ns) (hname : b.name = c.name) : b = c := by
  obtain ⟨entities, hparts, hreflected⟩ := exists_reflected (Document.built_of_load hload) h
  obtain ⟨p, hp, hpns, hpb⟩ := exists_part_of_writtenIn hload h hb
  obtain ⟨q, hq, hqns, hqc⟩ := exists_part_of_writtenIn hload h hc
  obtain rfl : p = q :=
    List.inj_on_of_nodup_map hparts.nodup hp hq (hpns.trans (hns.trans hqns.symm))
  obtain ⟨m, hm, rfl⟩ := hpb (hline p hp hqns)
  obtain ⟨m', hm', rfl⟩ := hqc (hline p hp hqns)
  have hsame : SchemaEntity.model m = .model m' :=
    List.inj_on_of_nodup_map (hparts.nodup_names hreflected.nodup hp)
      (SchemaEntity.mem_filterMap_model?_iff.1 hm) (SchemaEntity.mem_filterMap_model?_iff.1 hm')
      hname
  rw [SchemaEntity.model.inj hsame]

/-! What is declared from a block on. -/

/-- What the text does not say about a block that is identified by a key: the fields that its type
has from its parent. -/
def InheritsUnwritten (r : Registry) (b : Block) (name : String) : Prop :=
  (∃ key, b.clause = .ownKey key) ∧ ∃ e ∈ r.types, b.IsOf e ∧
    ∃ parent, e.parent = some parent ∧ name ∈ (r.markedFields parent).map (·.name)

/-- A name that is on a line of a block that is reached from a block, or that one of them leaves out
together with its parent. -/
def DeclaredFrom (r : Registry) (parts : List Part) (b : Block) (name : String) : Prop :=
  ∃ c, ReflTransGen (Extends parts) b c ∧ (name ∈ c.fieldNames ∨ r.InheritsUnwritten c name)

/-- A block says what its type has from its parent if the name after extends can mean no other block
than that of the parent, this is in a file with one line for each constant and field, and, where the
parent is the map entry concept, its block has the fields of what is registered under that name. -/
structure SaysParent (r : Registry) (parts : List Part) (b : Block) (parent : String) : Prop where
  only : ∀ c, Extends parts b c → c.qualifiedName = parent
  oneLine : ∀ p ∈ parts, p.ns = namespaceOf parent → p.OneLine
  entry : parent = entryName → ∀ name, name ∈ (r.markedFields entryName).map (·.name) ↔
    r.EntryUsed [] ∧ name ∈ TypeDecl.entry.fields.map (·.name)

/-- Each block that is reached from a block and says what it extends, says so of its parent. -/
def SaysParents (r : Registry) (parts : List Part) (b : Block) : Prop :=
  ∀ c, ReflTransGen (Extends parts) b c → ∀ e ∈ r.types, c.IsOf e → ∀ parent,
    e.parent = some parent → ∀ name, c.clause = .parent name → r.SaysParent parts c parent

theorem SaysParents.extends {b c : Block} (h : r.SaysParents parts b) (hc : Extends parts b c) :
    r.SaysParents parts c :=
  fun c' hreach => h c' (.head hc hreach)

theorem declaredFrom_iff {b : Block} {name : String} : r.DeclaredFrom parts b name ↔
    name ∈ b.fieldNames ∨ r.InheritsUnwritten b name ∨
      ∃ c, Extends parts b c ∧ r.DeclaredFrom parts c name := by
  constructor
  · rintro ⟨c, hreach, hc⟩
    rcases ReflTransGen.cases_head hreach with rfl | ⟨c', hbc, hreach⟩
    · exact hc.imp_right .inl
    · exact .inr (.inr ⟨c', hbc, c, hreach, hc⟩)
  · rintro (h | h | ⟨c', hbc, c, hreach, hc⟩)
    · exact ⟨b, .refl, .inl h⟩
    · exact ⟨b, .refl, .inr h⟩
    · exact ⟨c, .head hbc hreach, hc⟩

theorem declaredFrom_of_absent {b : Block} (hclause : b.clause = .absent) {name : String} :
    r.DeclaredFrom parts b name ↔ name ∈ b.fieldNames := by
  rw [declaredFrom_iff]
  refine or_iff_left ?_
  rintro (⟨⟨key, hkey⟩, -⟩ | ⟨c, hc, -⟩)
  · rw [hclause] at hkey
    cases hkey
  · exact absurd hc (not_extends (by simp [hclause]))

theorem declaredFrom_of_parent {b : Block} {pname : String} (hclause : b.clause = .parent pname)
    {name : String} : r.DeclaredFrom parts b name ↔
      name ∈ b.fieldNames ∨ ∃ c, Extends parts b c ∧ r.DeclaredFrom parts c name := by
  rw [declaredFrom_iff]
  refine or_congr_right (or_iff_right ?_)
  rintro ⟨⟨key, hkey⟩, -⟩
  rw [hclause] at hkey
  cases hkey

/-- A block that is identified by a key leaves out what its type has from a parent. -/
theorem declaredFrom_of_ownKey {d : TypeDecl} (hd : d ∈ r.types)
    (hcycle : ¬ r.OnCycle d.qualifiedName) {b : Block} (hb : b.IsOf d)
    (hfields : b.fieldNames = d.markedFields.map (·.name)) {key : String}
    (hclause : b.clause = .ownKey key) {name : String} :
    r.DeclaredFrom parts b name ↔ name ∈ (r.markedFields d.qualifiedName).map (·.name) := by
  have hno : ¬ ∃ c, Extends parts b c ∧ r.DeclaredFrom parts c name := by
    rintro ⟨c, hc, -⟩
    exact absurd hc (not_extends (by simp [hclause]))
  have hsame {e : TypeDecl} (he : e ∈ r.types) (hbe : b.IsOf e) : e = d :=
    eq_of_qualifiedName he hd (hbe.qualifiedName_eq.symm.trans hb.qualifiedName_eq)
  rw [declaredFrom_iff, hfields, or_iff_left hno]
  cases hparent : d.parent with
  | none =>
    rw [markedFields_of_root (type?_qualifiedName.2 hd) hparent]
    refine or_iff_left ?_
    rintro ⟨-, e, he, hbe, parent, heparent, -⟩
    obtain rfl := hsame he hbe
    rw [hparent] at heparent
    cases heparent
  | some parent =>
    rw [markedFields_of_parent (type?_qualifiedName.2 hd) hparent hcycle, List.map_append,
      List.mem_append]
    refine or_congr_right ⟨?_, fun hname => ?_⟩
    · rintro ⟨-, e, he, hbe, parent', heparent, hname⟩
      obtain rfl := hsame he hbe
      obtain rfl := Option.some.inj (hparent.symm.trans heparent)
      exact hname
    · exact ⟨⟨key, hclause⟩, d, hd, hb, parent, hparent, hname⟩

/-! Blocks of types. -/

theorem isOf_of_extends {b c : Block} {e : TypeDecl} (h : Extends parts b c)
    (hclause : b.clause = .parent e.name) (hdot : '.' ∉ e.name.toList)
    (hname : c.qualifiedName = e.qualifiedName) : c.IsOf e := by
  have heq : c.name = e.name := IdentityClause.parent.inj (h.clause.symm.trans hclause)
  rw [Block.qualifiedName, TypeDecl.qualifiedName, heq] at hname
  have hsplit := congrArg splitName hname
  rw [splitName_qualifiedName hdot, splitName_qualifiedName hdot] at hsplit
  exact ⟨congrArg Prod.fst hsplit, heq⟩

/-- The block of a reflected type is that of its model. -/
theorem exists_model_of_isOf (hload : doc.load = .ok loaded)
    (h : loaded.registry.reflect excluded = .ok parts) {k : Kind} {d : TypeDecl}
    (hd : (k, d) ∈ loaded.registry.reflectedTypes excluded)
    (hline : ∀ p ∈ parts, p.ns = d.ns → p.OneLine) {b : Block} (hb : b.WrittenIn parts)
    (hbd : b.IsOf d) : ∃ p ∈ parts, p.ns = d.ns ∧ ∃ m, b = p.block m ∧
      loaded.registry.IsModelOf k d m := by
  obtain ⟨p, hp, hns, hmodel⟩ := exists_part_of_writtenIn hload h hb
  have hpns := hns.trans hbd.ns_eq
  obtain ⟨m, hm, rfl⟩ := hmodel (hline p hp hpns)
  exact ⟨p, hp, hpns, m, rfl, isModelOf_of_model
    ((blockOf_iff (Document.built_of_load hload) h hd).1 ⟨p, hp, hpns, hm, hbd.name_eq⟩)⟩

theorem exists_block_of_reflected (hload : doc.load = .ok loaded)
    (h : loaded.registry.reflect excluded = .ok parts) {k : Kind} {d : TypeDecl}
    (hd : (k, d) ∈ loaded.registry.reflectedTypes excluded)
    (hline : ∀ p ∈ parts, p.ns = d.ns → p.OneLine) :
    ∃ b : Block, b.WrittenIn parts ∧ b.IsOf d := by
  obtain ⟨m, hmodel⟩ := exists_model_of_reflect h hd
  obtain ⟨p, hp, hns, hm, hname⟩ := (blockOf_iff (Document.built_of_load hload) h hd).2 hmodel
  exact ⟨p.block m, writtenIn_block hload h hp (hline p hp hns) hm, hns, hname⟩

theorem exists_block_of_entryUsed (hload : doc.load = .ok loaded)
    (h : loaded.registry.reflect excluded = .ok parts)
    (hused : loaded.registry.EntryUsed excluded)
    (hline : ∀ p ∈ parts, p.ns = entryNamespace → p.OneLine) : ∃ p ∈ parts,
      (p.block .entry).WrittenIn parts ∧ p.ns = entryNamespace := by
  obtain ⟨entities, hparts, hreflected⟩ := exists_reflected (Document.built_of_load hload) h
  obtain ⟨p, hp, hentry⟩ := hparts.mem_iff.2 (hreflected.entry.2 hused)
  have hns : p.ns = entryNamespace := (hparts.ns_eq hp hentry).symm
  exact ⟨p, hp, writtenIn_block hload h hp (hline p hp hns)
    (SchemaEntity.mem_filterMap_model?_iff.2 hentry), hns⟩

/-- No block has the name of the map entry concept, if the schema does not have it. -/
theorem entryUsed_of_writtenIn (hload : doc.load = .ok loaded)
    (h : loaded.registry.reflect excluded = .ok parts) {b : Block} (hb : b.WrittenIn parts)
    (hline : ∀ p ∈ parts, p.ns = b.file.ns → p.OneLine) (hname : b.qualifiedName = entryName) :
    loaded.registry.EntryUsed excluded := by
  obtain ⟨p, hp, hns, hmodel⟩ := exists_part_of_writtenIn hload h hb
  obtain ⟨m, hm, rfl⟩ := hmodel (hline p hp hns)
  obtain ⟨hmns, ⟨-, hused⟩ | ⟨t, ht, htm⟩⟩ :=
    (mem_models_iff (Document.built_of_load hload) h hp).1 hm
  · exact hused
  · refine absurd ?_ (mem_reflectedTypes_iff.1 ht).2.2.2.2
    rw [← hname, ← (isModelOf_of_model htm).qualifiedName, Model.qualifiedName, hmns]
    rfl

/-- A block that names its parent extends the block of the parent, in its own file or imported. -/
theorem extends_of_parent (hload : doc.load = .ok loaded)
    (h : loaded.registry.reflect excluded = .ok parts) {t : Kind × TypeDecl}
    (ht : t ∈ loaded.registry.reflectedTypes excluded) {e : TypeDecl}
    (he : e ∈ loaded.registry.types) (hparent : t.2.parent = some e.qualifiedName) {p q : Part}
    (hp : p ∈ parts) (hq : q ∈ parts) (hpns : p.ns = t.2.ns) {m m' : Model}
    (hclause : m.identityClause = .parent e.name) (hc : (q.block m').WrittenIn parts)
    (hce : (q.block m').IsOf e) : Extends parts (p.block m) (q.block m') := by
  have hbuilt := Document.built_of_load hload
  have hnames := Document.properNames_of_load hload
  refine ⟨hc, hclause.trans (congrArg _ hce.name_eq.symm), ?_⟩
  by_cases hns : q.ns = p.ns
  · obtain ⟨_, hparts, -⟩ := exists_reflected hbuilt h
    obtain rfl := List.inj_on_of_nodup_map hparts.nodup hq hp hns
    exact .inl rfl
  · rw [hce.qualifiedName_eq]
    refine .inr ((mem_imports_iff hbuilt hnames h hp).2 ⟨?_, t, ht, hpns.symm, .inl hparent⟩)
    rw [namespaceOf, hnames.splitName_type he, ← hce.ns_eq]
    exact hns

/-- What is declared from a block on is what it has on its lines, and what is declared from the
block of the parent on. -/
theorem declaredFrom_of_saysParent (hload : doc.load = .ok loaded)
    (h : loaded.registry.reflect excluded = .ok parts) {b c : Block} {e : TypeDecl}
    (he : e ∈ loaded.registry.types) (hclause : b.clause = .parent e.name)
    (hsaid : loaded.registry.SaysParent parts b e.qualifiedName) (hbc : Extends parts b c)
    {name : String} : loaded.registry.DeclaredFrom parts b name ↔
      name ∈ b.fieldNames ∨ loaded.registry.DeclaredFrom parts c name := by
  have hdot : '.' ∉ e.name.toList := Document.dot_not_mem_of_load hload he
  have hisOf {c : Block} (hc : Extends parts b c) : c.IsOf e :=
    isOf_of_extends hc hclause hdot (hsaid.only c hc)
  have hline (p : Part) (hp : p ∈ parts) (hns : p.ns = c.file.ns) : p.OneLine := by
    refine hsaid.oneLine p hp (hns.trans ((hisOf hbc).ns_eq.trans ?_))
    rw [TypeDecl.qualifiedName, namespaceOf, splitName_qualifiedName hdot]
  rw [declaredFrom_of_parent hclause]
  refine or_congr_right ⟨?_, fun hc => ⟨c, hbc, hc⟩⟩
  rintro ⟨c', hc', hname⟩
  rwa [eq_of_writtenIn hload h hc'.written hbc.written hline
    ((hisOf hc').ns_eq.trans (hisOf hbc).ns_eq.symm)
    ((hisOf hc').name_eq.trans (hisOf hbc).name_eq.symm)] at hname

/-- The map entry concept has a block of its own, whatever is registered under its name. -/
theorem declaredFrom_of_entry (hload : doc.load = .ok loaded)
    (h : loaded.registry.reflect [] = .ok parts) {t : Kind × TypeDecl}
    (ht : t ∈ loaded.registry.reflectedTypes []) {e : TypeDecl} (he : e ∈ loaded.registry.types)
    (hentry : e.qualifiedName = entryName) (hparent : t.2.parent = some e.qualifiedName) {p : Part}
    (hp : p ∈ parts) (hpns : p.ns = t.2.ns) {m : Model}
    (hclause : m.identityClause = .parent e.name)
    (hsaid : loaded.registry.SaysParent parts (p.block m) e.qualifiedName) {name : String} :
    loaded.registry.DeclaredFrom parts (p.block m) name ↔ name ∈ (p.block m).fieldNames ∨
      name ∈ (loaded.registry.markedFields entryName).map (·.name) := by
  have hdot := Document.dot_not_mem_of_load hload he
  obtain ⟨hens, hename⟩ : e.ns = entryNamespace ∧ e.name = "Entry" := by
    have hsplit : splitName e.qualifiedName = (e.ns, e.name) := splitName_qualifiedName hdot
    rw [hentry] at hsplit
    exact ⟨(congrArg Prod.fst hsplit).symm.trans (by decide),
      (congrArg Prod.snd hsplit).symm.trans (by decide)⟩
  have hline (q : Part) (hq : q ∈ parts) (hns : q.ns = entryNamespace) : q.OneLine :=
    hsaid.oneLine q hq (by rw [hns, hentry]; decide)
  rw [hsaid.entry hentry name]
  by_cases hused : loaded.registry.EntryUsed []
  · obtain ⟨q, hq, hwritten, hqns⟩ := exists_block_of_entryUsed hload h hused hline
    have hextends := extends_of_parent hload h ht he hparent hp hq hpns hclause hwritten
      ⟨hqns.trans hens.symm, hename.symm⟩
    rw [declaredFrom_of_saysParent hload h he hclause hsaid hextends,
      declaredFrom_of_absent (b := q.block .entry) rfl, q.fieldNames_block, and_iff_right hused]
    rfl
  · rw [declaredFrom_of_parent hclause]
    refine or_congr_right (iff_of_false ?_ fun hname => hused hname.1)
    rintro ⟨c, hc, -⟩
    have hce := isOf_of_extends hc hclause hdot (hsaid.only c hc)
    exact hused (entryUsed_of_writtenIn hload h hc.written
      (fun q hq hns => hline q hq (hns.trans (hce.ns_eq.trans hens)))
      ((hsaid.only c hc).trans hentry))

/-- The marked fields of a type, its own and those inherited, are the ones that are declared from
its block on. -/
theorem declaredFrom_block_iff (hload : doc.load = .ok loaded)
    (h : loaded.registry.reflect [] = .ok parts) {k : Kind} {d : TypeDecl}
    (hd : (k, d) ∈ loaded.registry.reflectedTypes [])
    (hline : ∀ p ∈ parts, p.ns = d.ns → p.OneLine) {b : Block} (hb : b.WrittenIn parts)
    (hbd : b.IsOf d) (hparents : loaded.registry.SaysParents parts b) {name : String} :
    loaded.registry.DeclaredFrom parts b name ↔
      name ∈ (loaded.registry.markedFields d.qualifiedName).map (·.name) := by
  have hacyclic := (reflect_eq_ok_iff.1 h).1
  generalize hn : d.qualifiedName = n
  induction n using line_induction hacyclic generalizing k d b with
  | step n ih =>
    subst hn
    obtain ⟨hdtypes, hk, hkinds, -, -⟩ := mem_reflectedTypes_iff.1 hd
    have hself := type?_qualifiedName.2 hdtypes
    obtain ⟨p, hp, hpns, m, rfl, hspec⟩ := exists_model_of_isOf hload h hd hline hb hbd
    have hfields : (p.block m).fieldNames = d.markedFields.map (·.name) :=
      (p.fieldNames_block m).trans hspec.map_name_fields
    cases hclause : m.identityClause with
    | absent =>
      have hroot := hspec.parent_eq_none_iff.1 (Model.parent_eq_none_of_absent hclause)
      rw [declaredFrom_of_absent hclause, hfields, markedFields_of_root hself hroot]
    | ownKey key => exact declaredFrom_of_ownKey hdtypes (hacyclic _) hbd hfields hclause
    | parent pname =>
      obtain ⟨-, mp, hmp, rfl⟩ := Model.identityClause_eq_parent_iff.1 hclause
      obtain ⟨parent, e, hparent, he, rfl⟩ := hspec.exists_parent hmp
      have hetypes := mem_of_type? he
      obtain rfl := qualifiedName_of_type? he
      have hsaid := hparents _ .refl d hdtypes hbd _ hparent _ hclause
      have hens : namespaceOf e.qualifiedName = e.ns := by
        rw [namespaceOf, (Document.properNames_of_load hload).splitName_type hetypes]
      rw [markedFields_of_parent hself hparent (hacyclic _), List.map_append, List.mem_append,
        ← hfields]
      by_cases hentry : e.qualifiedName = entryName
      · rw [declaredFrom_of_entry hload h hd hetypes hentry hparent hp hpns hclause hsaid, hentry]
      · obtain ⟨p', hp', hpk⟩ := hspec.parent_kind _ hparent
        obtain rfl := Option.some.inj (he.symm.trans hp')
        have hereflected : (k, e) ∈ loaded.registry.reflectedTypes [] :=
          mem_reflectedTypes_iff.2 ⟨hetypes, hpk, hkinds, by simp, hentry⟩
        have heline (p : Part) (hp : p ∈ parts) (hns : p.ns = e.ns) : p.OneLine :=
          hsaid.oneLine p hp (hns.trans hens.symm)
        obtain ⟨c, hc, hce⟩ := exists_block_of_reflected hload h hereflected heline
        obtain ⟨q, hq, -, m', rfl, -⟩ := exists_model_of_isOf hload h hereflected heline hc hce
        have hextends := extends_of_parent hload h hd hetypes hparent hp hq hpns hclause hc hce
        rw [declaredFrom_of_saysParent hload h hetypes hclause hsaid hextends]
        exact or_congr_right (ih _ (parentLink_iff.2 ⟨d, hself, hparent⟩) hereflected heline hc hce
          (hparents.extends hextends) rfl)

/-- The members of the object of an instance are, next to its type, the names on the lines of the
block of its type and of the blocks that are reached from it by extension, as these are read in the
files of the schema, and the fields that such a block leaves out because it is identified by a key.
The file of the type has one line for each constant and field, and each reached block that says what
it extends says so of the parent of its type. -/
theorem object_has_declared_fields (hload : doc.load = .ok loaded)
    (h : loaded.registry.reflect [] = .ok parts)
    (hnames : ∀ d ∈ loaded.registry.types, ∀ f ∈ d.markedFields, f.name ≠ Wire.typeMember)
    {k : Kind} {d : TypeDecl} (hd : (k, d) ∈ loaded.registry.reflectedTypes [])
    (hline : ∀ p ∈ parts, p.ns = d.ns → p.OneLine)
    (hparents : ∀ b : Block, b.WrittenIn parts → b.IsOf d → loaded.registry.SaysParents parts b)
    {x : Resource} (hx : x.type = d.qualifiedName) {inPlace : Bool} {object : List (String × Json)}
    (hobject : Wire.encode loaded.registry x.toValue inPlace = .ok (.object object)) :
    (∃ b : Block, b.WrittenIn parts ∧ b.IsOf d) ∧
    ∀ b : Block, b.WrittenIn parts → b.IsOf d → ∀ name,
      name ∈ object.map Prod.fst ∧ name ≠ Wire.typeMember ↔
        ∃ c, ReflTransGen (Extends parts) b c ∧
          (name ∈ c.fieldNames ∨ loaded.registry.InheritsUnwritten c name) := by
  obtain ⟨hdtypes, hk, -⟩ := mem_reflectedTypes_iff.1 hd
  refine ⟨exists_block_of_reflected hload h hd hline, fun b hb hbd name => ?_⟩
  refine Iff.trans ?_ (declaredFrom_block_iff hload h hd hline hb hbd (hparents b hb hbd)).symm
  rw [Wire.mem_keys_encode (hx ▸ type?_qualifiedName.2 hdtypes) hk hobject, hx]
  constructor
  · rintro ⟨hname | hname, hne⟩
    · exact absurd hname hne
    · exact hname
  · intro hname
    refine ⟨.inr hname, ?_⟩
    obtain ⟨f, hf, rfl⟩ := List.mem_map.1 hname
    obtain ⟨hf, hmarked⟩ := List.mem_filter.1 hf
    obtain ⟨e, he, hf⟩ := List.mem_flatMap.1 hf
    exact hnames e (mem_of_type? (mem_ancestors_iff.1 he).1) f (List.mem_filter.2 ⟨hf, hmarked⟩)

theorem exists_encode_empty {type : String} {d : TypeDecl} {k : Kind} (hd : r.type? type = some d)
    (hk : d.kind = some k) :
    ∃ object, Wire.encode r (Resource.empty type).toValue true = .ok (.object object) := by
  obtain ⟨nodes, hnodes⟩ := Wire.exists_members_iff.2 fun (f : Field) (_ : f ∈ r.wireFields type) =>
    (⟨.null, rfl⟩ : ∃ n, Wire.fieldNode [] f = .ok n)
  exact ⟨_, (Wire.encode_toValue hd hk true).trans (Wire.encodeObject_eq_ok_iff.2 ⟨_, hnodes, rfl⟩)⟩

theorem writtenIn_of_reach {b c : Block} (hb : b.WrittenIn parts)
    (h : ReflTransGen (Extends parts) b c) : c.WrittenIn parts := by
  rcases ReflTransGen.cases_tail h with rfl | ⟨_, -, hc⟩
  · exact hb
  · exact hc.written

theorem object_has_declared_fields_of_car : ∃ loaded parts object,
    garageDocument.load = .ok loaded ∧ loaded.registry.reflect [] = .ok parts ∧
      Wire.encode loaded.registry (.resource "org.acme.Car" []) true = .ok (.object object) ∧
      ∃ b : Block, b.WrittenIn parts ∧ b.IsOf Garage.car ∧ ∀ name,
        name ∈ object.map Prod.fst ∧ name ≠ Wire.typeMember ↔
          ∃ c, ReflTransGen (Extends parts) b c ∧
            (name ∈ c.fieldNames ∨ loaded.registry.InheritsUnwritten c name) := by
  have hload : garageDocument.load = .ok ⟨garage, garageDocument.warnings⟩ :=
    Document.load_eq_ok_iff.2 ⟨by decide, rfl⟩
  obtain ⟨parts, hparts, hline, honly⟩ : ∃ parts, garage.reflect [] = .ok parts ∧
      (∀ p ∈ parts, p.OneLine) ∧ ∀ p ∈ parts, ∀ m ∈ p.models, ∀ q ∈ parts, ∀ m' ∈ q.models,
        m.identityClause = .parent m'.name →
          qualifiedName q.ns m'.name = Garage.vehicle.qualifiedName :=
    ⟨_, reflect_eq_ok_iff.2 ⟨not_onCycle_garage, rfl⟩, by decide, by decide⟩
  have hvehicle : ∀ e ∈ garage.types, ∀ parent ∈ e.parent,
      parent = Garage.vehicle.qualifiedName := by decide
  obtain ⟨object, hobject⟩ := @exists_encode_empty garage "org.acme.Car" Garage.car .asset
    rfl rfl
  have hparents (b : Block) (hb : b.WrittenIn parts) (_ : b.IsOf Garage.car) :
      garage.SaysParents parts b := by
    intro c hreach e he _ parent hparent name hclause
    obtain rfl := hvehicle e he parent hparent
    obtain ⟨p, hp, -, hpc⟩ := exists_part_of_writtenIn hload hparts (writtenIn_of_reach hb hreach)
    obtain ⟨m, hm, rfl⟩ := hpc (hline p hp)
    refine ⟨fun c' hc' => ?_, fun q hq _ => hline q hq, fun h => absurd h (by decide)⟩
    obtain ⟨q, hq, -, hqc⟩ := exists_part_of_writtenIn hload hparts hc'.written
    obtain ⟨m', hm', rfl⟩ := hqc (hline q hq)
    exact honly p hp m hm q hq m' hm' hc'.clause
  obtain ⟨⟨b, hb, hbd⟩, hfields⟩ := object_has_declared_fields hload hparts (by decide)
    (k := .asset) (d := Garage.car) (by decide) (fun p hp _ => hline p hp) hparents
    (x := .empty "org.acme.Car") rfl hobject
  exact ⟨_, parts, object, hload, hparts, hobject, b, hb, hbd, hfields b hb hbd⟩

/-! Where the members of an object are not the names that the files declare: a key of its own in a
type with a parent, two blocks of one name, a map entry concept that is not written or that is not
the registered one, and a modifier and a constant that go on to the next line. -/

def DeclaredFor (parts : List Part) (d : TypeDecl) (name : String) : Prop :=
  ∃ b c : Block, b.WrittenIn parts ∧ b.IsOf d ∧ ReflTransGen (Extends parts) b c ∧
    name ∈ c.fieldNames

/-- The schema of a document, and the object of an instance of a type of it without values. -/
structure Shown (doc : Document) (parts : List Part) (k : Kind) (d : TypeDecl)
    (object : List (String × Json)) : Prop where
  load : ∃ loaded, doc.load = .ok loaded ∧ loaded.registry = doc.toRegistry
  names : ∀ d ∈ doc.toRegistry.types, ∀ f ∈ d.markedFields, f.name ≠ Wire.typeMember
  reflect : doc.toRegistry.reflect [] = .ok parts
  reflected : (k, d) ∈ doc.toRegistry.reflectedTypes []
  encode : Wire.encode doc.toRegistry (.resource d.qualifiedName []) true = .ok (.object object)

theorem exists_shown {doc : Document} (hcheck : doc.checkNames = .ok ())
    (hnames : ∀ d ∈ doc.toRegistry.types, ∀ f ∈ d.markedFields, f.name ≠ Wire.typeMember)
    (hparts : doc.toRegistry.reflect [] = .ok parts) {k : Kind} {d : TypeDecl}
    (hd : (k, d) ∈ doc.toRegistry.reflectedTypes []) : ∃ object, Shown doc parts k d object := by
  obtain ⟨hdtypes, hk, -⟩ := mem_reflectedTypes_iff.1 hd
  obtain ⟨object, hobject⟩ := exists_encode_empty (type?_qualifiedName.2 hdtypes) hk
  exact ⟨object, ⟨_, Document.load_eq_ok_iff.2 ⟨hcheck, rfl⟩, rfl⟩, hnames, hparts, hd, hobject⟩

theorem Shown.mem_keys_iff {k : Kind} {d : TypeDecl} {object : List (String × Json)}
    (h : Shown doc parts k d object) {name : String} (hname : name ≠ Wire.typeMember) :
    name ∈ object.map Prod.fst ↔
      name ∈ (doc.toRegistry.markedFields d.qualifiedName).map (·.name) := by
  obtain ⟨hdtypes, hk, -⟩ := mem_reflectedTypes_iff.1 h.reflected
  rw [Wire.mem_keys_encode (x := ⟨d.qualifiedName, []⟩) (type?_qualifiedName.2 hdtypes) hk h.encode,
    or_iff_right hname]

theorem Shown.markedFields_eq {k : Kind} {d : TypeDecl} {object : List (String × Json)}
    (h : Shown doc parts k d object) {parent : String} (hparent : d.parent = some parent)
    {e : TypeDecl} (he : doc.toRegistry.type? parent = some e) (hroot : e.parent = none) :
    doc.toRegistry.markedFields d.qualifiedName = d.markedFields ++ e.markedFields := by
  have hd := type?_qualifiedName.2 (mem_reflectedTypes_iff.1 h.reflected).1
  rw [markedFields_of_parent hd hparent ((reflect_eq_ok_iff.1 h.reflect).1 _),
    markedFields_of_root he hroot]

theorem not_declaredFor {d : TypeDecl} {name : String} (hload : doc.load = .ok loaded)
    (h : loaded.registry.reflect [] = .ok parts) (hline : ∀ p ∈ parts, p.OneLine)
    (hno : ∀ p ∈ parts, ∀ m ∈ p.models, name ∉ m.fields.map (·.name)) :
    ¬ DeclaredFor parts d name := by
  rintro ⟨b, c, hb, -, hreach, hname⟩
  obtain ⟨p, hp, -, hpc⟩ := exists_part_of_writtenIn hload h (writtenIn_of_reach hb hreach)
  obtain ⟨m, hm, rfl⟩ := hpc (hline p hp)
  rw [p.fieldNames_block] at hname
  exact hno p hp m hm hname

namespace Fleet

def base : TypeDecl where
  ns := "org.acme"
  name := "Base"
  kind := some .asset
  fields := [{ Field.data "id" (.primitive .string) with primary := true },
    .data "weight" (.primitive .double)]

def car : TypeDecl where
  ns := "org.acme"
  name := "Car"
  kind := some .asset
  parent := some "org.acme.Base"
  fields := [{ Field.data "vin" (.primitive .string) with primary := true }]

def document : Document := { types := [base, car] }

end Fleet

namespace Extras

def entry : TypeDecl where
  ns := entryNamespace
  name := "Entry"
  kind := some .concept
  fields := [.data "extra" (.primitive .string)]

def pair : TypeDecl where
  ns := "org.acme"
  name := "Pair"
  kind := some .concept
  parent := some entryName

def tags : TypeDecl where
  ns := "org.acme"
  name := "Tags"
  kind := some .concept
  fields := [.data "labels" .map]

def document : Document := { types := [entry, pair, tags] }

end Extras

namespace Spill

def car : TypeDecl where
  ns := "org.base"
  name := "Car"
  kind := some .concept
  fields := [{ Field.data "vin" (.primitive .string) with regex := some "/x/\n\to String forged" }]

def van : TypeDecl where
  ns := "org.acme"
  name := "Van"
  kind := some .concept
  parent := some "org.base.Car"

def document : Document := { types := [car, van] }

def outline : PartOutline where
  ns := "org.base"
  imports := []
  entities := [.model .concept "Car" .absent [⟨false, "String", "vin", false, "regex=/x/"⟩,
    ⟨false, "String", "forged", false, ""⟩]]

def block : Block where
  file := outline
  kind := .concept
  name := "Car"
  clause := .absent
  fields := [⟨false, "String", "vin", false, "regex=/x/"⟩, ⟨false, "String", "forged", false, ""⟩]

end Spill

namespace Palette

def car : TypeDecl where
  ns := "org.acme"
  name := "Car"
  kind := some .concept
  fields := [.data "colour" (.named "org.acme.Colour")]

def document : Document where
  types := [car]
  enums := [⟨"org.acme", "Colour", ["RED\n\x7d\n\nconcept Car \x7b\n\to String forged "]⟩]

/-- What the text reads as: a second block of the name, with a field of its own. -/
def outline : PartOutline where
  ns := "org.acme"
  imports := []
  entities := [.enum "Colour" ["RED"],
    .model .concept "Car" .absent [⟨false, "String", "forged", false, ""⟩],
    .model .concept "Car" .absent [⟨false, "Colour", "colour", false, ""⟩]]

def block : Block where
  file := outline
  kind := .concept
  name := "Car"
  clause := .absent
  fields := [⟨false, "String", "forged", false, ""⟩]

end Palette

theorem not_onCycle_fleet (name : String) : ¬ Fleet.document.toRegistry.OnCycle name :=
  not_onCycle_of_rank (fun n => if n = "org.acme.Car" then 1 else 0) (by decide) name

theorem not_onCycle_extras (name : String) : ¬ Extras.document.toRegistry.OnCycle name :=
  not_onCycle_of_rank (fun n => if n = "org.acme.Pair" then 1 else 0) (by decide) name

theorem not_onCycle_spill (name : String) : ¬ Spill.document.toRegistry.OnCycle name :=
  not_onCycle_of_rank (fun n => if n = "org.acme.Van" then 1 else 0) (by decide) name

theorem not_onCycle_palette (name : String) : ¬ Palette.document.toRegistry.OnCycle name :=
  not_onCycle_of_rank (fun _ => 0) (by decide) name

theorem fleet_member_undeclared : ∃ parts object,
    Shown Fleet.document parts .asset Fleet.car object ∧ "weight" ∈ object.map Prod.fst ∧
    ¬ DeclaredFor parts Fleet.car "weight" := by
  obtain ⟨parts, hparts, hline, hcar⟩ : ∃ parts, Fleet.document.toRegistry.reflect [] = .ok parts ∧
      (∀ p ∈ parts, p.OneLine) ∧ ∀ p ∈ parts, ∀ m ∈ p.models, m.name = "Car" →
        m.identityClause = .ownKey "vin" ∧ "weight" ∉ m.fields.map (·.name) :=
    ⟨_, reflect_eq_ok_iff.2 ⟨not_onCycle_fleet, rfl⟩, by decide, by decide⟩
  obtain ⟨object, hshown⟩ := exists_shown (by decide) (by decide) hparts (k := .asset)
    (d := Fleet.car) (by decide)
  obtain ⟨loaded, hload, hregistry⟩ := hshown.load
  refine ⟨parts, object, hshown, ?_, ?_⟩
  · rw [hshown.mem_keys_iff (by decide), hshown.markedFields_eq (e := Fleet.base) rfl rfl rfl]
    decide
  · rintro ⟨b, c, hb, hbd, hreach, hname⟩
    obtain ⟨p, hp, -, hpb⟩ := exists_part_of_writtenIn hload (hregistry ▸ hparts) hb
    obtain ⟨m, hm, rfl⟩ := hpb (hline p hp)
    obtain ⟨hclause, hno⟩ := hcar p hp m hm hbd.name_eq
    rcases ReflTransGen.cases_head hreach with rfl | ⟨c', hc', -⟩
    · rw [p.fieldNames_block] at hname
      exact hno hname
    · exact not_extends (fun name h => by simp [Part.block, hclause] at h) hc'

theorem branches_member_missing : ∃ parts object,
    Shown Branches.document parts .concept Branches.van object ∧ "near" ∉ object.map Prod.fst ∧
    DeclaredFor parts Branches.van "near" := by
  obtain ⟨parts, hparts, p, hp, hns, hline, m, hm, m', hm', hname, hclause, hnear⟩ :
      ∃ parts, Branches.document.toRegistry.reflect [] = .ok parts ∧ ∃ p ∈ parts,
        p.ns = "org.acme" ∧ p.OneLine ∧ ∃ m ∈ p.models, ∃ m' ∈ p.models, m.name = "Van" ∧
          m.identityClause = .parent m'.name ∧ "near" ∈ m'.fields.map (·.name) :=
    ⟨_, reflect_eq_ok_iff.2 ⟨not_onCycle_branches, rfl⟩, by decide⟩
  obtain ⟨object, hshown⟩ := exists_shown (by decide) (by decide) hparts (k := .concept)
    (d := Branches.van) (by decide)
  obtain ⟨loaded, hload, hregistry⟩ := hshown.load
  have hwritten {m : Model} (hm : m ∈ p.models) : (p.block m).WrittenIn parts :=
    writtenIn_block hload (hregistry ▸ hparts) hp hline hm
  refine ⟨parts, object, hshown, ?_, p.block m, p.block m', hwritten hm, ⟨hns, hname⟩,
    .single ⟨hwritten hm', hclause, .inl rfl⟩, ?_⟩
  · rw [hshown.mem_keys_iff (by decide), hshown.markedFields_eq (e := Branches.far) rfl rfl rfl]
    decide
  · rwa [p.fieldNames_block]

theorem pairs_member_undeclared : ∃ parts object,
    Shown Pairs.document parts .concept Pairs.pair object ∧ "key" ∈ object.map Prod.fst ∧
    ¬ DeclaredFor parts Pairs.pair "key" := by
  obtain ⟨parts, hparts, hline, hno⟩ : ∃ parts, Pairs.document.toRegistry.reflect [] = .ok parts ∧
      (∀ p ∈ parts, p.OneLine) ∧
      ∀ p ∈ parts, ∀ m ∈ p.models, "key" ∉ m.fields.map (·.name) :=
    ⟨_, reflect_eq_ok_iff.2 ⟨not_onCycle_pairs, rfl⟩, by decide, by decide⟩
  obtain ⟨object, hshown⟩ := exists_shown (by decide) (by decide) hparts (k := .concept)
    (d := Pairs.pair) (by decide)
  obtain ⟨loaded, hload, hregistry⟩ := hshown.load
  refine ⟨parts, object, hshown, ?_, not_declaredFor hload (hregistry ▸ hparts) hline hno⟩
  rw [hshown.mem_keys_iff (by decide), hshown.markedFields_eq (e := .entry) rfl rfl rfl]
  decide

theorem extras_member_undeclared : ∃ parts object,
    Shown Extras.document parts .concept Extras.pair object ∧ "extra" ∈ object.map Prod.fst ∧
    ¬ DeclaredFor parts Extras.pair "extra" := by
  obtain ⟨parts, hparts, hline, hno⟩ : ∃ parts, Extras.document.toRegistry.reflect [] = .ok parts ∧
      (∀ p ∈ parts, p.OneLine) ∧
      ∀ p ∈ parts, ∀ m ∈ p.models, "extra" ∉ m.fields.map (·.name) :=
    ⟨_, reflect_eq_ok_iff.2 ⟨not_onCycle_extras, rfl⟩, by decide, by decide⟩
  obtain ⟨object, hshown⟩ := exists_shown (by decide) (by decide) hparts (k := .concept)
    (d := Extras.pair) (by decide)
  obtain ⟨loaded, hload, hregistry⟩ := hshown.load
  refine ⟨parts, object, hshown, ?_, not_declaredFor hload (hregistry ▸ hparts) hline hno⟩
  rw [hshown.mem_keys_iff (by decide), hshown.markedFields_eq (e := Extras.entry) rfl rfl rfl]
  decide

theorem isWord_of_not_mem {s : String} (h : ' ' ∉ s.toList ∧ '\n' ∉ s.toList) : IsWord s :=
  ⟨h.1, h.2⟩

theorem legible_field {f : FieldOutline}
    (h : (' ' ∉ f.label.toList ∧ '\n' ∉ f.label.toList) ∧
      (' ' ∉ f.name.toList ∧ '\n' ∉ f.name.toList) ∧
      '\n' ∉ f.modifiers.toList ∧ ¬ "optional ".toList <+: f.modifiers.toList) : f.Legible :=
  ⟨isWord_of_not_mem h.1, isWord_of_not_mem h.2.1, h.2.2.1, h.2.2.2⟩

theorem legible_spill : Spill.outline.Legible where
  ns := by decide
  imports := by decide
  entities := by
    rw [Spill.outline, List.forall_mem_singleton]
    exact ⟨fun word hmem => isWord_of_not_mem (by revert word; decide),
      fun f hmem => legible_field (by revert f; decide)⟩

theorem legible_palette : Palette.outline.Legible where
  ns := by decide
  imports := by decide
  entities := by
    rw [Palette.outline, List.forall_mem_cons, List.forall_mem_cons, List.forall_mem_singleton]
    refine ⟨⟨isWord_of_not_mem (by decide), by decide⟩, ⟨fun word hmem => ?_, fun f hmem => ?_⟩,
      fun word hmem => ?_, fun f hmem => ?_⟩
    · exact isWord_of_not_mem (by revert word; decide)
    · exact legible_field (by revert f; decide)
    · exact isWord_of_not_mem (by revert word; decide)
    · exact legible_field (by revert f; decide)

theorem spill_member_missing : ∃ parts object,
    Shown Spill.document parts .concept Spill.van object ∧ "forged" ∉ object.map Prod.fst ∧
    DeclaredFor parts Spill.van "forged" := by
  obtain ⟨parts, hparts, p, hp, hline, hns, himport, m, hm, hname, hclause, q, hq, htext⟩ : ∃ parts,
      Spill.document.toRegistry.reflect [] = .ok parts ∧ ∃ p ∈ parts, p.OneLine ∧
        p.ns = "org.acme" ∧ "org.base.Car" ∈ p.imports ∧
        ∃ m ∈ p.models, m.name = "Van" ∧ m.identityClause = .parent "Car" ∧
        ∃ q ∈ parts, q.text = .ok Spill.outline.text :=
    ⟨_, reflect_eq_ok_iff.2 ⟨not_onCycle_spill, rfl⟩, by decide⟩
  obtain ⟨object, hshown⟩ := exists_shown (by decide) (by decide) hparts (k := .concept)
    (d := Spill.van) (by decide)
  obtain ⟨loaded, hload, hregistry⟩ := hshown.load
  have hwritten : Spill.block.WrittenIn parts :=
    ⟨⟨q, hq, _, htext, legible_spill, rfl⟩, List.mem_singleton_self _⟩
  have hextends : Extends parts (p.block m) Spill.block := ⟨hwritten, hclause, .inr himport⟩
  refine ⟨parts, object, hshown, ?_, p.block m, Spill.block,
    writtenIn_block hload (hregistry ▸ hparts) hp hline hm, ⟨hns, hname⟩, .single hextends,
    by decide⟩
  rw [hshown.mem_keys_iff (by decide), hshown.markedFields_eq (e := Spill.car) rfl rfl rfl]
  decide

theorem palette_member_missing : ∃ parts object,
    Shown Palette.document parts .concept Palette.car object ∧ "forged" ∉ object.map Prod.fst ∧
    DeclaredFor parts Palette.car "forged" := by
  obtain ⟨parts, hparts, p, hp, htext⟩ : ∃ parts,
      Palette.document.toRegistry.reflect [] = .ok parts ∧
      ∃ p ∈ parts, p.text = .ok Palette.outline.text :=
    ⟨_, reflect_eq_ok_iff.2 ⟨not_onCycle_palette, rfl⟩, by decide⟩
  obtain ⟨object, hshown⟩ := exists_shown (by decide) (by decide) hparts (k := .concept)
    (d := Palette.car) (by decide)
  have hwritten : Palette.block.WrittenIn parts :=
    ⟨⟨p, hp, _, htext, legible_palette, rfl⟩, List.mem_cons_of_mem _ List.mem_cons_self⟩
  refine ⟨parts, object, hshown, ?_, Palette.block, Palette.block, hwritten, ⟨rfl, rfl⟩, .refl,
    by decide⟩
  rw [hshown.mem_keys_iff (by decide),
    markedFields_of_root (type?_qualifiedName.2 (mem_reflectedTypes_iff.1 hshown.reflected).1) rfl]
  decide

/-- Without the conditions on blocks and lines, members and declared fields differ in both
directions. -/
theorem object_has_other_fields :
    (∃ parts object, Shown Fleet.document parts .asset Fleet.car object ∧
      "weight" ∈ object.map Prod.fst ∧ ¬ DeclaredFor parts Fleet.car "weight") ∧
    (∃ parts object, Shown Branches.document parts .concept Branches.van object ∧
      "near" ∉ object.map Prod.fst ∧ DeclaredFor parts Branches.van "near") ∧
    (∃ parts object, Shown Pairs.document parts .concept Pairs.pair object ∧
      "key" ∈ object.map Prod.fst ∧ ¬ DeclaredFor parts Pairs.pair "key") ∧
    (∃ parts object, Shown Extras.document parts .concept Extras.pair object ∧
      "extra" ∈ object.map Prod.fst ∧ ¬ DeclaredFor parts Extras.pair "extra") ∧
    (∃ parts object, Shown Spill.document parts .concept Spill.van object ∧
      "forged" ∉ object.map Prod.fst ∧ DeclaredFor parts Spill.van "forged") ∧
    ∃ parts object, Shown Palette.document parts .concept Palette.car object ∧
      "forged" ∉ object.map Prod.fst ∧ DeclaredFor parts Palette.car "forged" :=
  ⟨fleet_member_undeclared, branches_member_missing, pairs_member_undeclared,
    extras_member_undeclared, spill_member_missing, palette_member_missing⟩

end Registry

end LedgerSchema
