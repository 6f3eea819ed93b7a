import Mathlib
import LedgerSchema.Proofs.FieldType
import LedgerSchema.Proofs.Schema.ImportTargets

/-!
The simple names that the text of a part writes for types. Fields and parents name types by their
qualified names, and the text has only the last segments: a reader finds the type among the
primitives, what the part declares and what it imports. The type that was named is always among
these, and it is the only one if no other in scope has its simple name.
-/

set_option autoImplicit false

namespace LedgerSchema

/-! Reading names back from the text. -/

/-- The type that the line of a field writes: its second word, without the brackets of an array. -/
def lineType? (line : String) : Option String :=
  (splitAt ' ' line.toList)[1]?.map fun word =>
    .ofList ((FieldType.stripBrackets? word).getD word)

/-- The type that the head of a block writes after extends. -/
def blockParent? (block : String) : Option String :=
  match splitAt ' ' block.toList with
  | _ :: _ :: clause :: parent :: _ =>
    if clause = "extends".toList then some (.ofList parent) else none
  | _ => none

theorem isInfix_join {s : String} {l : List String} (h : s ∈ l) :
    s.toList <:+: (String.join l).toList := by
  obtain ⟨before, after, rfl⟩ := List.append_of_mem h
  exact ⟨(String.join before).toList, (String.join after).toList, by simp⟩

namespace SchemaField

theorem lineType?_line {s : SchemaField} {name : String} (hblank : ' ' ∉ name.toList)
    (hbracket : ']' ∉ name.toList) (hlabel : s.label = name ∨ s.label = arrayLabel name) :
    lineType? s.line = some name := by
  obtain ⟨mark, rest, hmark, hline⟩ : ∃ mark rest, ' ' ∉ mark ∧
      s.line.toList = mark ++ ' ' :: (s.label.toList ++ ' ' :: rest) := by
    unfold line
    cases s.isReference with
    | true => exact ⟨['\t', '-', '-', '>'], _, by decide, by simp; rfl⟩
    | false => exact ⟨['\t', 'o'], _, by decide, by simp; rfl⟩
  have hword : ' ' ∉ s.label.toList := by
    rcases hlabel with h | h <;> simp [h, arrayLabel, hblank]
  rw [lineType?, hline, splitAt_append_cons hmark, splitAt_append_cons hword]
  rcases hlabel with h | h
  · simp [h, FieldType.stripBrackets?_eq_none hbracket]
  · simp [h, arrayLabel, FieldType.stripBrackets?_append]

end SchemaField

namespace Model

theorem blockParent?_text {m : Model} {block : String} (h : m.text = .ok block)
    (hname : ' ' ∉ m.name.toList) (hparent : ∀ p, m.parent = some p → ' ' ∉ p.name.toList)
    {name : String} : blockParent? block = some name ↔ m.identityClause = .parent name := by
  have hkeyword : ' ' ∉ m.kind.keyword.toList := by cases m.kind <;> decide
  obtain ⟨rest, hblock⟩ : ∃ rest, block.toList = m.kind.keyword.toList ++ ' ' ::
      (m.name.toList ++ (m.identityClause.text.toList ++ ' ' :: '\x7b' :: rest)) := by
    obtain ⟨⟨⟩, -, rfl⟩ := map_eq_ok_iff.1 h
    exact ⟨_, by simp [String.toList_append]; rfl⟩
  rw [blockParent?, hblock, splitAt_append_cons hkeyword]
  cases hclause : m.identityClause with
  | absent =>
    -- The word after the name starts with the brace.
    obtain ⟨first, others, hbrace⟩ := splitAt_cons_of_ne (c := ' ') (d := '\x7b') (by decide) rest
    have htext : IdentityClause.absent.text.toList = [] := by decide
    rw [htext, List.nil_append, splitAt_append_cons hname, hbrace]
    cases others <;> simp
  | ownKey key =>
    have htext : (IdentityClause.ownKey key).text.toList =
        ' ' :: ("identified".toList ++ ' ' :: ("by ".toList ++ key.toList)) := by
      simp [IdentityClause.text, toString]
    have hidentified : ' ' ∉ "identified".toList := by decide
    rw [htext, List.cons_append, splitAt_append_cons hname, List.append_assoc, List.cons_append,
      splitAt_append_cons hidentified]
    cases splitAt ' ' ("by ".toList ++ key.toList ++ ' ' :: '\x7b' :: rest) <;> simp
  | parent parent =>
    have htext : (IdentityClause.parent parent).text.toList =
        ' ' :: ("extends".toList ++ ' ' :: parent.toList) := by
      simp [IdentityClause.text, toString]
    have hextends : ' ' ∉ "extends".toList := by decide
    obtain ⟨-, p, hp, rfl⟩ := identityClause_eq_parent_iff.1 hclause
    rw [htext, List.cons_append, splitAt_append_cons hname, List.append_assoc, List.cons_append,
      splitAt_append_cons hextends, splitAt_append_cons (hparent p hp)]
    simp

theorem line_isInfix_text {m : Model} {block : String} (h : m.text = .ok block) {s : SchemaField}
    (hs : s ∈ m.fields) : s.line.toList <:+: block.toList := by
  obtain ⟨⟨⟩, -, rfl⟩ := map_eq_ok_iff.1 h
  refine (isInfix_join (List.mem_map_of_mem hs)).trans ?_
  rw [String.toList_append, String.toList_append]
  exact List.infix_append _ _ _

end Model

theorem Part.exists_text {p : Part} (h : ∀ e ∈ p.entities, ∃ block, e.text = .ok block) :
    ∃ text, p.text = .ok text ∧
      ∀ e ∈ p.entities, ∀ block, e.text = .ok block → block.toList <:+: text.toList := by
  obtain ⟨blocks, hblocks⟩ := exists_forall₂_iff.2 h
  refine ⟨_, bind_eq_ok_iff.2 ⟨blocks, mapM_eq_ok_iff.2 hblocks, rfl⟩, fun e he block hblock => ?_⟩
  obtain ⟨block', hmem, hblock'⟩ := exists_mem_right hblocks he
  obtain rfl := Except.ok.inj (hblock.symm.trans hblock')
  have hline : block.toList <:+: ("\n" ++ block).toList := by
    rw [String.toList_append]
    exact (List.suffix_append _ _).isInfix
  refine (hline.trans (isInfix_join (List.mem_map_of_mem hmem))).trans ?_
  rw [String.toList_append]
  exact (List.suffix_append _ _).isInfix

/-! What names stand for. -/

/-- What a type name in the text can stand for: a primitive, or what is declared under a qualified
name. -/
inductive Referent where
  | primitive (p : Primitive)
  | declared (name : String)
  deriving DecidableEq

def Referent.written : Referent → String
  | .primitive p => p.label
  | .declared name => simpleName name

def FieldType.referent? : FieldType → Option Referent
  | .primitive p => some (.primitive p)
  | .named name => some (.declared name)
  | _ => none

namespace Field

/-- What the descriptor of a field names: the component of an array, the element of a collection,
and for a map the map entry concept. -/
def referent? (f : Field) : Option Referent :=
  match f.type with
  | .map => some (.declared entryName)
  | .array component => component.referent?
  | .collection _ => f.element.bind FieldType.referent?
  | t => t.referent?

theorem referent?_eq_declared_iff {f : Field} {name : String} :
    f.referent? = some (.declared name) ↔ f.RefersTo name := by
  have hcomponent (t : FieldType) : t.referent? = some (.declared name) ↔ t = .named name := by
    cases t <;> simp [FieldType.referent?]
  unfold referent? RefersTo Mentions
  cases htype : f.type with
  | primitive p => simp [FieldType.referent?]
  | array component => simp [hcomponent]
  | collection kind => simp [Option.bind_eq_some_iff, hcomponent]
  | map => simp [eq_comm]
  | named other => simp [FieldType.referent?]

end Field

/-- What a name in the file of a part can stand for: the primitive of that label, an entity of the
part that has it, and an import that ends in it. -/
def Part.Candidate (p : Part) (written : String) : Referent → Prop
  | .primitive primitive => primitive.label = written
  | .declared name => (∃ e ∈ p.entities, e.name = written ∧ e.qualifiedName = name) ∨
      name ∈ p.imports ∧ simpleName name = written

instance (p : Part) (written : String) : DecidablePred (p.Candidate written)
  | .primitive primitive => inferInstanceAs (Decidable (primitive.label = written))
  | .declared name => inferInstanceAs (Decidable ((∃ e ∈ p.entities, e.name = written ∧
      e.qualifiedName = name) ∨ name ∈ p.imports ∧ simpleName name = written))

namespace Registry

variable {r : Registry} {parts : List Part} {excluded : List String}

/-- What the schema declares: the reflected types, the enumerations that their marked fields
mention, and the map entry concept if they use it. -/
def Declares (r : Registry) (excluded : List String) (name : String) : Prop :=
  (∃ t ∈ r.reflectedTypes excluded, t.2.qualifiedName = name) ∨
    (∃ t ∈ r.reflectedTypes excluded, ∃ f ∈ t.2.markedFields, f.Mentions name ∧
      ∃ e, r.resolve name = .enum e) ∨
    name = entryName ∧ r.EntryUsed excluded

/-- What is in scope in a namespace: the primitives, what is declared in it, and what its reflected
types name in other namespaces. -/
def InScope (r : Registry) (excluded : List String) (ns : String) : Referent → Prop
  | .primitive _ => True
  | .declared name => namespaceOf name = ns ∧ r.Declares excluded name ∨
      namespaceOf name ≠ ns ∧ ∃ t ∈ r.reflectedTypes excluded, t.2.ns = ns ∧ t.2.Names name

theorem Reflected.declares_iff {entities : List SchemaEntity}
    (h : r.Reflected (r.reflectedTypes excluded) entities) {name : String} :
    (∃ e ∈ entities, e.qualifiedName = name) ↔ r.Declares excluded name := by
  constructor
  · rintro ⟨e, he, rfl⟩
    cases e with
    | model m =>
      rcases h.model_mem_iff.1 he with ⟨rfl, hused⟩ | ⟨t, ht, hmodel⟩
      · exact .inr (.inr ⟨qualifiedName_entity_entry, hused⟩)
      · exact .inl ⟨t, ht, (isModelOf_of_model hmodel).qualifiedName.symm⟩
    | enum e =>
      obtain ⟨t, ht, f, hf, name, hmention, hresolve⟩ := (h.enums e).1 he
      obtain rfl := qualifiedName_of_enum? (resolve_eq_enum_iff.1 hresolve).2
      exact .inr (.inl ⟨t, ht, f, hf, hmention, e, hresolve⟩)
  · rintro (⟨t, ht, rfl⟩ | ⟨t, ht, f, hf, hmention, e, hresolve⟩ | ⟨rfl, hused⟩)
    · obtain ⟨m, hm, hmodel⟩ := exists_mem_right h.models ht
      exact ⟨.model m, (mem_ownModels_iff.1 hm).1, (isModelOf_of_model hmodel).qualifiedName⟩
    · exact ⟨.enum e, (h.enums e).2 ⟨t, ht, f, hf, name, hmention, hresolve⟩,
        qualifiedName_of_enum? (resolve_eq_enum_iff.1 hresolve).2⟩
    · exact ⟨.model .entry, h.entry.2 hused, qualifiedName_entity_entry⟩

/-- The candidates for a name in a file are what is in scope under that name. -/
theorem candidate_iff (hbuilt : r.Built) (hnames : r.ProperNames)
    (h : r.reflect excluded = .ok parts) {p : Part} (hp : p ∈ parts) {written : String}
    {ref : Referent} :
    p.Candidate written ref ↔ r.InScope excluded p.ns ref ∧ ref.written = written := by
  cases ref with
  | primitive primitive => exact (and_iff_right trivial).symm
  | declared name =>
    obtain ⟨entities, hparts, hreflected⟩ := exists_reflected hbuilt h
    have hentity : (∃ e ∈ p.entities, e.name = written ∧ e.qualifiedName = name) ↔
        (namespaceOf name = p.ns ∧ r.Declares excluded name) ∧ simpleName name = written := by
      rw [← hreflected.declares_iff]
      constructor
      · rintro ⟨e, he, rfl, rfl⟩
        have hmem := hparts.mem_iff.1 ⟨p, hp, he⟩
        have hsplit := (hreflected.mayDeclare e hmem).splitName_qualifiedName hnames
        exact ⟨⟨(congrArg Prod.fst hsplit).trans (hparts.ns_eq hp he), e, hmem, rfl⟩,
          congrArg Prod.snd hsplit⟩
      · rintro ⟨⟨hns, e, he, rfl⟩, rfl⟩
        have hsplit := (hreflected.mayDeclare e he).splitName_qualifiedName hnames
        refine ⟨e, ?_, (congrArg Prod.snd hsplit).symm, rfl⟩
        rw [hparts.entities_eq p hp, List.mem_filter]
        exact ⟨he, decide_eq_true ((congrArg Prod.fst hsplit).symm.trans hns)⟩
    change _ ∨ name ∈ p.imports ∧ simpleName name = written ↔ _
    rw [hentity, mem_imports_iff hbuilt hnames h hp, ← or_and_right]
    rfl

/-- What a field names is written as its type, in brackets for arrays, collections and maps. -/
theorem exists_referent_of_schemaField {owner : String} {f : Field} {s : SchemaField}
    (h : r.schemaField owner f = .ok s) : ∃ ref, f.referent? = some ref ∧
      (s.label = ref.written ∨ s.label = arrayLabel ref.written) := by
  obtain ⟨shape, hshape, rfl⟩ := schemaField_eq_ok_iff.1 h
  have hshaped := shaped_of_fieldShape hshape
  unfold Field.referent?
  generalize f.type = type, f.element = element at hshaped ⊢
  cases hshaped with
  | primitive p => exact ⟨.primitive p, rfl, .inl rfl⟩
  | map => exact ⟨.declared entryName, rfl, .inr rfl⟩
  | @named name => exact ⟨.declared name, rfl, .inl rfl⟩
  | primitiveArray p => exact ⟨.primitive p, rfl, .inr rfl⟩
  | @namedArray name => exact ⟨.declared name, rfl, .inr rfl⟩
  | primitiveItems kind p => exact ⟨.primitive p, rfl, .inr rfl⟩
  | @namedItems kind name => exact ⟨.declared name, rfl, .inr rfl⟩

theorem isIdentifier_written (hnames : r.ProperNames) {owner : String} {f : Field}
    {s : SchemaField} (h : r.schemaField owner f = .ok s) {ref : Referent}
    (href : f.referent? = some ref) : isIdentifier ref.written.toList = true := by
  cases ref with
  | primitive p => cases p <;> decide
  | declared name =>
    rcases Field.referent?_eq_declared_iff.1 href with ⟨-, rfl⟩ | hmention
    · decide
    · obtain ⟨t, ht⟩ := exists_target_of_mentions h hmention
      change isIdentifier (splitName name).2.toList = true
      rcases (target_eq_ok_iff.1 ht).2 with ⟨⟨e, he⟩, -⟩ | ⟨d, k, hd, -⟩
      · have henum := (resolve_eq_enum_iff.1 he).2
        have hmem : e ∈ r.enums := List.mem_of_find?_eq_some henum
        rw [← qualifiedName_of_enum? henum, hnames.splitName_enum hmem]
        exact hnames.enums e hmem
      · have htype := resolve_eq_type_iff.1 hd
        rw [← qualifiedName_of_type? htype, hnames.splitName_type (mem_of_type? htype)]
        exact hnames.types d (mem_of_type? htype)

theorem lineType?_of_schemaField (hnames : r.ProperNames) {owner : String} {f : Field}
    {s : SchemaField} (h : r.schemaField owner f = .ok s) :
    ∃ ref, f.referent? = some ref ∧ lineType? s.line = some ref.written := by
  obtain ⟨ref, href, hlabel⟩ := exists_referent_of_schemaField h
  have hidentifier := isIdentifier_written hnames h href
  exact ⟨ref, href, SchemaField.lineType?_line (not_mem_of_isIdentifier hidentifier (by decide))
    (not_mem_of_isIdentifier hidentifier (by decide)) hlabel⟩

/-- What a reflected type names is in scope in its namespace, apart from a map entry concept that is
not declared. -/
theorem inScope_of_names (hbuilt : r.Built) (hnames : r.ProperNames)
    (h : r.reflect excluded = .ok parts) {t : Kind × TypeDecl}
    (ht : t ∈ r.reflectedTypes excluded) {name : String} (hname : t.2.Names name)
    (hentry : name ≠ entryName ∨ t.2.ns ≠ entryNamespace ∨ r.EntryUsed excluded) :
    r.InScope excluded t.2.ns (.declared name) := by
  by_cases hns : namespaceOf name = t.2.ns
  · refine .inl ⟨hns, ?_⟩
    obtain ⟨entities, -, hreflected⟩ := exists_reflected hbuilt h
    by_cases hne : name = entryName
    · subst hne
      refine .inr (.inr ⟨rfl, (hentry.resolve_left fun hne => hne rfl).resolve_left ?_⟩)
      exact fun hother => hother (hns.symm.trans (by decide))
    · refine hreflected.declares_iff.1
        ((hreflected.exists_entity_of_names hnames ht hname hne).resolve_left ?_)
      exact hns ▸ (mem_reflectedTypes_iff.1 ht).2.2.2.1
  · exact .inr ⟨hns, t, ht, rfl, hname⟩

theorem inScope_of_field (hbuilt : r.Built) (hnames : r.ProperNames)
    (h : r.reflect excluded = .ok parts) {t : Kind × TypeDecl}
    (ht : t ∈ r.reflectedTypes excluded) {f : Field} (hf : f ∈ t.2.markedFields) {ref : Referent}
    (href : f.referent? = some ref) : r.InScope excluded t.2.ns ref := by
  cases ref with
  | primitive p => trivial
  | declared name =>
    have hrefers := Field.referent?_eq_declared_iff.1 href
    refine inScope_of_names hbuilt hnames h ht (.inr ⟨f, hf, hrefers⟩) ?_
    by_cases hne : name = entryName
    · exact .inr (.inr ⟨t, ht, f, hf, Field.refersTo_entryName_iff.1 (hne ▸ hrefers)⟩)
    · exact .inl hne

theorem model_entry (r : Registry) : r.model .concept .entry = .ok .entry := by
  rfl

theorem validate_of_model {k : Kind} {d : TypeDecl} {m : Model} (h : r.model k d = .ok m) :
    m.validate = .ok () := by
  obtain ⟨parent, -, h⟩ := bind_eq_ok_iff.1 h
  obtain ⟨m', -, h⟩ := bind_eq_ok_iff.1 h
  obtain ⟨⟨⟩, hvalid, h⟩ := bind_eq_ok_iff.1 h
  obtain rfl := Except.ok.inj h
  exact hvalid

/-- The model of a part is that of a reflected type of its namespace, or the map entry concept. -/
theorem exists_origin (hbuilt : r.Built) (h : r.reflect excluded = .ok parts) {p : Part}
    (hp : p ∈ parts) {m : Model} (hm : m ∈ p.models) : ∃ k d,
      (k = .concept ∧ d = .entry ∨ (k, d) ∈ r.reflectedTypes excluded ∧ d.ns = p.ns) ∧
      r.model k d = .ok m := by
  obtain ⟨hns, ⟨rfl, -⟩ | ⟨t, ht, hmodel⟩⟩ := (mem_models_iff hbuilt h hp).1 hm
  · exact ⟨.concept, .entry, .inl ⟨rfl, rfl⟩, model_entry _⟩
  · exact ⟨t.1, t.2, .inr ⟨ht, (isModelOf_of_model hmodel).ns_eq.symm.trans hns⟩, hmodel⟩

theorem exists_text_of_reflect (hbuilt : r.Built) (h : r.reflect excluded = .ok parts) {p : Part}
    (hp : p ∈ parts) : ∃ text, p.text = .ok text ∧
      ∀ m ∈ p.models, ∃ block, m.text = .ok block ∧ block.toList <:+: text.toList := by
  have hblock (m : Model) (hm : m ∈ p.models) : ∃ block, m.text = .ok block := by
    obtain ⟨k, d, -, hmodel⟩ := exists_origin hbuilt h hp hm
    exact ⟨_, map_eq_ok_iff.2 ⟨(), validate_of_model hmodel, rfl⟩⟩
  obtain ⟨text, htext, hparts⟩ := Part.exists_text fun e (he : e ∈ p.entities) => by
    cases e with
    | model m => exact hblock m (SchemaEntity.mem_filterMap_model?_iff.2 he)
    | enum e => exact ⟨_, rfl⟩
  refine ⟨text, htext, fun m hm => ?_⟩
  obtain ⟨block, hmblock⟩ := hblock m hm
  exact ⟨block, hmblock, hparts _ (SchemaEntity.mem_filterMap_model?_iff.1 hm) block hmblock⟩

/-- A written name can stand for what was named, and for nothing else exactly if nothing else in
scope is written that way. -/
structure ResolvesTo (r : Registry) (excluded : List String) (p : Part) (written : String)
    (ref : Referent) : Prop where
  candidate : p.Candidate written ref
  unique_iff : (∃! other, p.Candidate written other) ↔
    ∀ other, r.InScope excluded p.ns other → other.written = written → other = ref

theorem resolvesTo_of_inScope (hbuilt : r.Built) (hnames : r.ProperNames)
    (h : r.reflect excluded = .ok parts) {p : Part} (hp : p ∈ parts) {ref : Referent}
    (href : r.InScope excluded p.ns ref) : r.ResolvesTo excluded p ref.written ref := by
  have hcandidate (other : Referent) : p.Candidate ref.written other ↔
      r.InScope excluded p.ns other ∧ other.written = ref.written :=
    candidate_iff hbuilt hnames h hp
  refine ⟨(hcandidate ref).2 ⟨href, rfl⟩, ?_⟩
  constructor
  · rintro ⟨only, -, honly⟩ other hother hwritten
    rw [honly ref ((hcandidate ref).2 ⟨href, rfl⟩)]
    exact honly other ((hcandidate other).2 ⟨hother, hwritten⟩)
  · intro halone
    refine ⟨ref, (hcandidate ref).2 ⟨href, rfl⟩, fun other hother => ?_⟩
    exact halone other ((hcandidate other).1 hother).1 ((hcandidate other).1 hother).2

theorem blockParent?_of_model (hnames : r.ProperNames) {k : Kind} {d : TypeDecl} {m : Model}
    (hd : isIdentifier d.name.toList = true) (hm : r.model k d = .ok m) {block written : String}
    (hblock : m.text = .ok block) (hwritten : blockParent? block = some written) :
    ∃ parent, d.parent = some parent ∧ (Referent.declared parent).written = written := by
  have hspec := isModelOf_of_model hm
  have hblank {name : String} (h : isIdentifier name.toList = true) : ' ' ∉ name.toList :=
    not_mem_of_isIdentifier h (by decide)
  have hparent (p : ModelParent) (hp : m.parent = some p) : ' ' ∉ p.name.toList := by
    obtain ⟨_, e, -, he, rfl⟩ := hspec.exists_parent hp
    exact hblank (hnames.types e (mem_of_type? he))
  have hclause := (Model.blockParent?_text hblock (hspec.name_eq ▸ hblank hd) hparent).1 hwritten
  obtain ⟨-, p, hp, rfl⟩ := Model.identityClause_eq_parent_iff.1 hclause
  obtain ⟨parent, e, hdparent, he, rfl⟩ := hspec.exists_parent hp
  refine ⟨parent, hdparent, ?_⟩
  change (splitName parent).2 = e.name
  rw [← qualifiedName_of_type? he, hnames.splitName_type (mem_of_type? he)]

/-- The type names in the text of a part of a loaded registry's schema. Every part has a text, which
holds the blocks of its models, and these the lines of their fields. The name that a line writes for
the type of its field can stand for what the declared field names, and it can stand for nothing else
exactly if nothing else in scope in the namespace is written that way; so can the name that a block
writes after extends for the parent of its type, unless that is a map entry concept of the same
namespace that the schema does not declare. -/
theorem written_names_resolve {doc : Document} {loaded : Document.Loaded}
    (hload : doc.load = .ok loaded) (h : loaded.registry.reflect excluded = .ok parts) {p : Part}
    (hp : p ∈ parts) : ∃ text, p.text = .ok text ∧ ∀ m ∈ p.models, ∃ k d block,
      (k = .concept ∧ d = .entry ∨ (k, d) ∈ loaded.registry.reflectedTypes excluded) ∧
      loaded.registry.model k d = .ok m ∧ m.text = .ok block ∧ block.toList <:+: text.toList ∧
      (∀ s ∈ m.fields, s.line.toList <:+: block.toList ∧ ∃ f ∈ d.markedFields,
        loaded.registry.schemaField d.qualifiedName f = .ok s ∧
        ∃ ref written, f.referent? = some ref ∧ lineType? s.line = some written ∧
          loaded.registry.ResolvesTo excluded p written ref) ∧
      ∀ written, blockParent? block = some written → ∃ parent, d.parent = some parent ∧
        (parent ≠ entryName ∨ p.ns ≠ entryNamespace ∨ loaded.registry.EntryUsed excluded →
          loaded.registry.ResolvesTo excluded p written (.declared parent)) := by
  have hbuilt := Document.built_of_load hload
  have hnames := Document.properNames_of_load hload
  obtain ⟨text, htext, hblocks⟩ := exists_text_of_reflect hbuilt h hp
  refine ⟨text, htext, fun m hm => ?_⟩
  obtain ⟨k, d, hd, hmodel⟩ := exists_origin hbuilt h hp hm
  obtain ⟨block, hmblock, hinfix⟩ := hblocks m hm
  refine ⟨k, d, block, hd.imp_right And.left, hmodel, hmblock, hinfix, fun s hs => ?_,
    fun written hwritten => ?_⟩
  · obtain ⟨f, hf, hsf⟩ := exists_mem_left (isModelOf_of_model hmodel).fields hs
    obtain ⟨ref, href, hline⟩ := lineType?_of_schemaField hnames hsf
    refine ⟨Model.line_isInfix_text hmblock hs, f, hf, hsf, ref, ref.written, href, hline, ?_⟩
    refine resolvesTo_of_inScope hbuilt hnames h hp ?_
    rcases hd with ⟨-, rfl⟩ | ⟨ht, hns⟩
    · -- The fields of the map entry concept are strings.
      obtain rfl : ref = .primitive .string := by
        have hstring : ∀ f ∈ TypeDecl.entry.markedFields,
            f.referent? = some (.primitive .string) := by decide
        exact Option.some.inj (href.symm.trans (hstring f hf))
      trivial
    · exact hns ▸ inScope_of_field hbuilt hnames h ht hf href
  · rcases hd with ⟨-, rfl⟩ | ⟨ht, hns⟩
    · obtain ⟨parent, hparent, -⟩ :=
        blockParent?_of_model hnames (by decide) hmodel hmblock hwritten
      cases hparent
    · have hidentifier := hnames.types d (mem_reflectedTypes_iff.1 ht).1
      obtain ⟨parent, hparent, rfl⟩ :=
        blockParent?_of_model hnames hidentifier hmodel hmblock hwritten
      refine ⟨parent, hparent, fun hentry => resolvesTo_of_inScope hbuilt hnames h hp ?_⟩
      exact hns ▸ inScope_of_names hbuilt hnames h ht (.inl hparent) (hns ▸ hentry)

theorem written_names_resolve_of_garage : ∃ loaded parts, garageDocument.load = .ok loaded ∧
    loaded.registry.reflect [] = .ok parts ∧ ∀ p ∈ parts, ∀ m ∈ p.models, ∀ s ∈ m.fields,
      ∃ ref written, lineType? s.line = some written ∧
        loaded.registry.ResolvesTo [] p written ref := by
  have hload : garageDocument.load = .ok ⟨garage, garageDocument.warnings⟩ :=
    Document.load_eq_ok_iff.2 ⟨by decide, rfl⟩
  obtain ⟨parts, hparts, -⟩ := exists_reflect_garage
  refine ⟨_, parts, hload, hparts, fun p hp m hm s hs => ?_⟩
  obtain ⟨_, -, hmodels⟩ := written_names_resolve hload hparts hp
  obtain ⟨_, _, _, -, -, -, -, hfields, -⟩ := hmodels m hm
  obtain ⟨-, _, -, -, ref, written, -, hline, hresolves⟩ := hfields s hs
  exact ⟨ref, written, hline, hresolves⟩

/-! Names that can stand for more than one type: a parent beside a type of its name, and a primitive
beside a type of its label. -/

namespace Memo

def string : TypeDecl where
  ns := "org.acme"
  name := "String"
  kind := some .concept

def note : TypeDecl where
  ns := "org.acme"
  name := "Note"
  kind := some .concept
  fields := [.data "text" (.primitive .string)]

def document : Document := { types := [string, note] }

end Memo

theorem not_onCycle_memo (name : String) : ¬ Memo.document.toRegistry.OnCycle name :=
  not_onCycle_of_rank (fun _ => 0) (by decide) name

/-- The name after extends and the type of a field can each stand for two things. -/
theorem written_name_ambiguous :
    (∃ loaded parts, Branches.document.load = .ok loaded ∧
      loaded.registry.reflect [] = .ok parts ∧ ∃ p ∈ parts, ∃ m ∈ p.models,
        m.text = .ok "concept Van extends Base \x7b\n\x7d\n" ∧
        ¬ ∃! ref, p.Candidate "Base" ref) ∧
    ∃ loaded parts, Memo.document.load = .ok loaded ∧
      loaded.registry.reflect [] = .ok parts ∧ ∃ p ∈ parts, ∃ m ∈ p.models,
        m.text = .ok "concept Note \x7b\n\to String text \n\x7d\n" ∧
        ¬ ∃! ref, p.Candidate "String" ref := by
  constructor
  · obtain ⟨parts, hparts, p, hp, m, hm, htext, hnear, hfar⟩ :
        ∃ parts, Branches.document.toRegistry.reflect [] = .ok parts ∧ ∃ p ∈ parts,
          ∃ m ∈ p.models, m.text = .ok "concept Van extends Base \x7b\n\x7d\n" ∧
          p.Candidate "Base" (.declared "org.acme.Base") ∧
          p.Candidate "Base" (.declared "org.base.Base") :=
      ⟨_, reflect_eq_ok_iff.2 ⟨not_onCycle_branches, rfl⟩, by decide⟩
    refine ⟨⟨_, _⟩, parts, Document.load_eq_ok_iff.2 ⟨by decide, rfl⟩, hparts, p, hp, m, hm, htext,
      fun hunique => ?_⟩
    exact absurd (hunique.unique hnear hfar) (by decide)
  · obtain ⟨parts, hparts, p, hp, m, hm, htext, hprimitive, hdeclared⟩ :
        ∃ parts, Memo.document.toRegistry.reflect [] = .ok parts ∧ ∃ p ∈ parts,
          ∃ m ∈ p.models, m.text = .ok "concept Note \x7b\n\to String text \n\x7d\n" ∧
          p.Candidate "String" (.primitive .string) ∧
          p.Candidate "String" (.declared "org.acme.String") :=
      ⟨_, reflect_eq_ok_iff.2 ⟨not_onCycle_memo, rfl⟩, by decide⟩
    refine ⟨⟨_, _⟩, parts, Document.load_eq_ok_iff.2 ⟨by decide, rfl⟩, hparts, p, hp, m, hm, htext,
      fun hunique => ?_⟩
    exact absurd (hunique.unique hprimitive hdeclared) (by decide)

end Registry

end LedgerSchema
