import Mathlib
import LedgerSchema.Proofs.Archive.Assembly
import LedgerSchema.Proofs.Schema.Dependencies
import LedgerSchema.Proofs.Schema.Outline
import LedgerSchema.Proofs.Schema.WrittenNames

/-!
The text of a part is the text of its outline. The names in the schema of a loaded registry are
identifiers, so its outlines are legible, and parts with the same text have the same outline.
-/

set_option autoImplicit false

namespace LedgerSchema

/-! Outlines of parts. -/

namespace SchemaField

def modifierText (key : String) (value : Option String) : String :=
  value.elim "" fun v => s!"{key}={v} "

def modifiers (f : SchemaField) : String :=
  modifierText "default" f.default ++ modifierText "range" f.range ++ modifierText "regex" f.regex

def outline (f : SchemaField) : FieldOutline where
  reference := f.isReference
  label := f.label
  name := f.name
  optional := f.optional
  modifiers := f.modifiers

theorem line_eq (f : SchemaField) : f.line = f.outline.line ++ "\n" := by
  unfold line FieldOutline.line FieldOutline.mark FieldOutline.ending outline modifiers modifierText
  cases f.isReference <;> cases f.optional <;> simp [← String.toList_inj]

/-- Where one modifier ends and the next one starts cannot be read from the line. -/
example :
    (⟨"plate", "String", none, true, false, some "A range=B", none, none⟩ : SchemaField).line =
    (⟨"plate", "String", none, true, false, some "A", some "B", none⟩ : SchemaField).line := by
  decide

end SchemaField

def SchemaEntity.outline : SchemaEntity → EntityOutline
  | .model m => .model m.kind m.name m.identityClause (m.fields.map (·.outline))
  | .enum e => .enum e.name e.constants

def Part.outline (p : Part) : PartOutline where
  ns := p.ns
  imports := p.imports
  entities := p.entities.map (·.outline)

/-! Their texts. -/

theorem unwords_head (kind name : String) (clause : IdentityClause) :
    unwords (kind :: name :: (clause.words ++ ["\x7b"])) =
      kind ++ " " ++ name ++ clause.text ++ " \x7b" := by
  cases clause <;> simp [IdentityClause.words, IdentityClause.text, unwords_cons_cons,
    unwords_singleton, toString, ← String.toList_inj]

theorem SchemaEntity.text_model {m : Model} (h : m.validate = .ok ()) :
    (SchemaEntity.model m).text = .ok (unlines (SchemaEntity.model m).outline.lines) := by
  have hlines : unlines ((m.fields.map (·.outline)).map (·.line)) =
      String.join (m.fields.map (·.line)) := by
    simp [unlines, SchemaField.line_eq, Function.comp_def]
  rw [SchemaEntity.text, Model.text, h, EntityOutline.lines, unlines_cons, unlines_append]
  simp only [Except.map, outline, EntityOutline.head, EntityOutline.body, unwords_head, hlines]
  simp [unlines, ← String.toList_inj]

theorem SchemaEntity.text_enum (e : EnumDecl) :
    (SchemaEntity.enum e).text = .ok (unlines (SchemaEntity.enum e).outline.lines) := by
  have hlines : unlines (e.constants.map ("\to " ++ ·)) =
      String.join (e.constants.map fun c => s!"\to {c}\n") := by
    simp [unlines, Function.comp_def, toString]
  rw [SchemaEntity.text, EnumDecl.text, EntityOutline.lines, unlines_cons, unlines_append]
  simp only [outline, EntityOutline.head, EntityOutline.body, hlines]
  simp [unwords_cons_cons, unwords_singleton, unlines, toString, ← String.toList_inj]

theorem Part.text_eq {p : Part}
    (h : ∀ e ∈ p.entities, e.text = .ok (unlines e.outline.lines)) :
    p.text = .ok p.outline.text := by
  have hblocks : p.entities.mapM (·.text) = .ok (p.entities.map fun e => unlines e.outline.lines) :=
    mapM_eq_ok_iff.2 (List.forall₂_map_right_iff.2 (List.forall₂_same.2 h))
  have himports : unlines (p.imports.map ("import " ++ ·)) =
      String.join (p.imports.map fun name => s!"import {name}\n") := by
    simp [unlines, Function.comp_def, toString]
  refine bind_eq_ok_iff.2 ⟨_, hblocks, congrArg Except.ok ?_⟩
  rw [PartOutline.text, unblocks_cons]
  simp only [outline, PartOutline.header, unlines_cons, himports, List.map_map]
  rfl

/-! Legible outlines. -/

/-- No constant and no modifier goes over more than one line. -/
def Part.OneLine (p : Part) : Prop :=
  (∀ e ∈ p.enums, ∀ c ∈ e.constants, '\n' ∉ c.toList) ∧
    ∀ m ∈ p.models, ∀ f ∈ m.fields,
      ∀ value ∈ f.default.toList ++ f.range.toList ++ f.regex.toList, '\n' ∉ value.toList

instance : DecidablePred Part.OneLine := fun p => inferInstanceAs (Decidable (
  (∀ e ∈ p.enums, ∀ c ∈ e.constants, '\n' ∉ c.toList) ∧
    ∀ m ∈ p.models, ∀ f ∈ m.fields,
      ∀ value ∈ f.default.toList ++ f.range.toList ++ f.regex.toList, '\n' ∉ value.toList))

/-- A constant of two lines reads like two constants. -/
example : (⟨"org.acme", "Colour", ["RED\n\to BLUE"]⟩ : EnumDecl).text =
    (⟨"org.acme", "Colour", ["RED", "BLUE"]⟩ : EnumDecl).text := by
  decide

theorem isWord_of_isIdentifier {s : String} (h : isIdentifier s.toList = true) : IsWord s :=
  ⟨not_mem_of_isIdentifier h (by decide), not_mem_of_isIdentifier h (by decide)⟩

theorem isWord_label {label name : String} (h : isIdentifier name.toList = true)
    (hlabel : label = name ∨ label = arrayLabel name) : IsWord label := by
  have hname := isWord_of_isIdentifier h
  rcases hlabel with rfl | rfl
  · exact hname
  · exact ⟨by simp [arrayLabel, hname.blank], by simp [arrayLabel, hname.newline]⟩

theorem FieldOutline.WellNamed.legible {f : FieldOutline} (h : f.WellNamed)
    (hline : '\n' ∉ f.modifiers.toList) (hoptional : ¬ "optional ".toList <+: f.modifiers.toList) :
    f.Legible := by
  obtain ⟨⟨type, htype, hlabel⟩, hname⟩ := h
  exact ⟨isWord_label htype hlabel, isWord_of_isIdentifier hname, hline, hoptional⟩

theorem IdentityClause.WellNamed.isWord {clause : IdentityClause} (h : clause.WellNamed) :
    ∀ word ∈ clause.words, IsWord word := by
  cases clause with
  | absent => simp [words]
  | ownKey name =>
    simp only [words, List.forall_mem_cons]
    exact ⟨⟨by decide, by decide⟩, ⟨by decide, by decide⟩, isWord_of_isIdentifier h, by simp⟩
  | parent name =>
    simp only [words, List.forall_mem_cons]
    exact ⟨⟨by decide, by decide⟩, isWord_of_isIdentifier h, by simp⟩

namespace SchemaField

theorem not_optional_prefix_modifiers (f : SchemaField) :
    ¬ "optional ".toList <+: f.modifiers.toList := by
  unfold modifiers modifierText
  cases f.default <;> cases f.range <;> cases f.regex <;> simp [toString]

theorem newline_not_mem_modifierText {key : String} {value : Option String}
    (hkey : '\n' ∉ key.toList) (hvalue : ∀ v ∈ value.toList, '\n' ∉ v.toList) :
    '\n' ∉ (modifierText key value).toList := by
  cases value with
  | none => simp [modifierText]
  | some v => simp [modifierText, toString, hkey, hvalue v (by simp)]

theorem newline_not_mem_modifiers {f : SchemaField}
    (h : ∀ value ∈ f.default.toList ++ f.range.toList ++ f.regex.toList, '\n' ∉ value.toList) :
    '\n' ∉ f.modifiers.toList := by
  rw [List.forall_mem_append, List.forall_mem_append] at h
  obtain ⟨⟨hdefault, hrange⟩, hregex⟩ := h
  simp only [modifiers, String.toList_append, List.mem_append, not_or]
  exact ⟨⟨newline_not_mem_modifierText (by decide) hdefault,
    newline_not_mem_modifierText (by decide) hrange⟩,
    newline_not_mem_modifierText (by decide) hregex⟩

end SchemaField

namespace Document

variable {doc : Document} {loaded : Document.Loaded}

/-- The names that are declared are joined of a namespace and an identifier. -/
theorem exists_parts_of_resolve (h : doc.load = .ok loaded) {name : String}
    (hknown : loaded.registry.resolve name ≠ .unknown) :
    ∃ ns simple, name = qualifiedName ns simple ∧ checkNamespace ns = .ok () ∧
      isIdentifier simple.toList = true := by
  cases hresolve : loaded.registry.resolve name with
  | unknown => exact absurd hresolve hknown
  | type d =>
    have hd := Registry.resolve_eq_type_iff.1 hresolve
    have hmem := Registry.mem_of_type? hd
    exact ⟨d.ns, d.name, (Registry.qualifiedName_of_type? hd).symm,
      checkNamespace_type_of_load h hmem, (properNames_of_load h).types d hmem⟩
  | enum e =>
    have he := (Registry.resolve_eq_enum_iff.1 hresolve).2
    have hmem : e ∈ loaded.registry.enums := List.mem_of_find?_eq_some he
    exact ⟨e.ns, e.name, (Registry.qualifiedName_of_enum? he).symm,
      checkNamespace_enum_of_load h hmem, (properNames_of_load h).enums e hmem⟩

end Document

namespace Registry

variable {doc : Document} {loaded : Document.Loaded} {excluded : List String} {parts : List Part}

theorem wellNamed_field (hnames : loaded.registry.ProperNames) {owner : String} {f : Field}
    (hf : isIdentifier f.name.toList = true) {s : SchemaField}
    (hs : loaded.registry.schemaField owner f = .ok s) : s.outline.WellNamed where
  label := by
    obtain ⟨ref, href, hlabel⟩ := exists_referent_of_schemaField hs
    exact ⟨ref.written, isIdentifier_written hnames hs href, hlabel⟩
  name := by
    rw [SchemaField.outline, name_of_schemaField hs]
    exact hf

theorem wellNamed_identityClause (hnames : loaded.registry.ProperNames) {k : Kind} {d : TypeDecl}
    (hd : ∀ f ∈ d.fields, isIdentifier f.name.toList = true) {m : Model}
    (hm : loaded.registry.IsModelOf k d m) : m.identityClause.WellNamed := by
  cases hclause : m.identityClause with
  | absent => trivial
  | ownKey name =>
    obtain ⟨-, key, hkey, rfl⟩ := Model.identityClause_eq_ownKey_iff.1 hclause
    obtain ⟨f, hf, hs⟩ := (hm.key key).1 hkey
    have hfield : f ∈ d.fields := (List.mem_filter.1 (List.mem_of_find?_eq_some hf)).1
    change isIdentifier key.name.toList = true
    rw [name_of_schemaField hs]
    exact hd f hfield
  | parent name =>
    obtain ⟨-, p, hp, rfl⟩ := Model.identityClause_eq_parent_iff.1 hclause
    obtain ⟨_, e, -, he, rfl⟩ := hm.exists_parent hp
    exact hnames.types e (mem_of_type? he)

theorem wellNamed_model (hnames : loaded.registry.ProperNames) {k : Kind} {d : TypeDecl}
    (hd : Document.checkType d = .ok ()) {m : Model} (hm : loaded.registry.IsModelOf k d m) :
    (SchemaEntity.model m).outline.WellNamed := by
  obtain ⟨hname, hfields⟩ := Document.isIdentifier_of_checkType hd
  refine ⟨hm.name_eq ▸ hname, wellNamed_identityClause hnames hfields hm, ?_⟩
  rw [List.forall_mem_map]
  intro s hs
  obtain ⟨f, hf, hsf⟩ := exists_mem_left hm.fields hs
  exact wellNamed_field hnames (hfields f (List.mem_filter.1 hf).1) hsf

/-- The enumerations of a schema are those of the registry, with the constants that they have
there. -/
theorem mem_enums_of_reflect (hbuilt : loaded.registry.Built)
    (h : loaded.registry.reflect excluded = .ok parts) {p : Part} (hp : p ∈ parts) {e : EnumDecl}
    (he : .enum e ∈ p.entities) : e ∈ loaded.registry.enums ∧ e.ns = p.ns := by
  obtain ⟨entities, hparts, hreflected⟩ := exists_reflected hbuilt h
  have hresolve := hreflected.mayDeclare _ (hparts.mem_iff.1 ⟨p, hp, he⟩)
  exact ⟨List.mem_of_find?_eq_some (resolve_eq_enum_iff.1 hresolve).2, hparts.ns_eq hp he⟩

theorem wellNamed_entity (hload : doc.load = .ok loaded)
    (h : loaded.registry.reflect excluded = .ok parts) {p : Part} (hp : p ∈ parts)
    {e : SchemaEntity} (he : e ∈ p.entities) : e.outline.WellNamed := by
  have hbuilt := Document.built_of_load hload
  have hnames := Document.properNames_of_load hload
  cases e with
  | model m =>
    have hm : m ∈ p.models := SchemaEntity.mem_filterMap_model?_iff.2 he
    obtain ⟨k, d, hd, hmodel⟩ := exists_origin hbuilt h hp hm
    have hcheck : Document.checkType d = .ok () := by
      rcases hd with ⟨-, rfl⟩ | ⟨ht, -⟩
      · decide
      · exact Document.checkType_of_load hload (mem_reflectedTypes_iff.1 ht).1
    exact wellNamed_model hnames hcheck (isModelOf_of_model hmodel)
  | enum e => exact hnames.enums e (mem_enums_of_reflect hbuilt h hp he).1

/-- The names in the schema of a loaded registry are identifiers, apart from constants. -/
theorem wellNamed_outline (hload : doc.load = .ok loaded)
    (h : loaded.registry.reflect excluded = .ok parts) {p : Part} (hp : p ∈ parts) :
    p.outline.WellNamed where
  ns := checkNamespace_of_reflect hload h hp
  imports name hname := by
    have hbuilt := Document.built_of_load hload
    obtain ⟨-, t, ht, -, hnamed⟩ :=
      (mem_imports_iff hbuilt (Document.properNames_of_load hload) h hp).1 hname
    obtain ⟨m, hmodel⟩ := exists_model_of_reflect h ht
    exact Document.exists_parts_of_resolve hload (resolve_ne_unknown_of_names hbuilt hmodel hnamed)
  entities := List.forall_mem_map.2 fun _ he => wellNamed_entity hload h hp he

theorem legible_entity (hload : doc.load = .ok loaded)
    (h : loaded.registry.reflect excluded = .ok parts) {p : Part} (hp : p ∈ parts)
    (hline : p.OneLine) {e : SchemaEntity} (he : e ∈ p.entities) : e.outline.Legible := by
  have hnamed := wellNamed_entity hload h hp he
  cases e with
  | model m =>
    have hm : m ∈ p.models := SchemaEntity.mem_filterMap_model?_iff.2 he
    obtain ⟨hname, hclause, hfields⟩ := hnamed
    refine ⟨List.forall_mem_cons.2 ⟨isWord_of_isIdentifier hname, hclause.isWord⟩, ?_⟩
    rw [List.forall_mem_map] at hfields ⊢
    intro s hs
    apply (hfields s hs).legible
    · exact SchemaField.newline_not_mem_modifiers (hline.2 m hm s hs)
    · exact s.not_optional_prefix_modifiers
  | enum e =>
    exact ⟨isWord_of_isIdentifier hnamed, hline.1 e (List.mem_filterMap.2 ⟨_, he, rfl⟩)⟩

/-- The schema of a loaded registry has legible parts, if no constant and no modifier goes over more
than one line. -/
theorem legible_outline (hload : doc.load = .ok loaded)
    (h : loaded.registry.reflect excluded = .ok parts) {p : Part} (hp : p ∈ parts)
    (hline : p.OneLine) : p.outline.Legible where
  ns := not_mem_of_checkNamespace (wellNamed_outline hload h hp).ns (by decide) (by decide)
  imports name hname := by
    obtain ⟨ns, simple, rfl, hns, hsimple⟩ := (wellNamed_outline hload h hp).imports name hname
    exact not_mem_qualifiedName hns hsimple (by decide) (by decide)
  entities := List.forall_mem_map.2 fun _ he => legible_entity hload h hp hline he

theorem text_eq_outline (hbuilt : loaded.registry.Built)
    (h : loaded.registry.reflect excluded = .ok parts) {p : Part} (hp : p ∈ parts) :
    p.text = .ok p.outline.text := by
  refine Part.text_eq fun e he => ?_
  cases e with
  | model m =>
    have hm : m ∈ p.models := SchemaEntity.mem_filterMap_model?_iff.2 he
    obtain ⟨k, d, -, hmodel⟩ := exists_origin hbuilt h hp hm
    exact SchemaEntity.text_model (validate_of_model hmodel)
  | enum e => exact SchemaEntity.text_enum e

/-- The text of a part determines what the part declares. The parts of the schemas of two loaded
registries have texts, and if no constant and no modifier in them goes over more than one line, then
these are the same exactly if the parts have the same namespace, the same imports, and entities with
the same outlines in the same order. -/
theorem text_determines_outline {doc doc' : Document} {loaded loaded' : Document.Loaded}
    {excluded excluded' : List String} {parts parts' : List Part}
    (hload : doc.load = .ok loaded) (hload' : doc'.load = .ok loaded')
    (h : loaded.registry.reflect excluded = .ok parts)
    (h' : loaded'.registry.reflect excluded' = .ok parts') {p q : Part} (hp : p ∈ parts)
    (hq : q ∈ parts') (hpline : p.OneLine) (hqline : q.OneLine) :
    (∃ text, p.text = .ok text) ∧ (∃ text, q.text = .ok text) ∧
      (p.text = q.text ↔ p.ns = q.ns ∧ p.imports = q.imports ∧
        p.entities.map (·.outline) = q.entities.map (·.outline)) := by
  have hptext := text_eq_outline (Document.built_of_load hload) h hp
  have hqtext := text_eq_outline (Document.built_of_load hload') h' hq
  refine ⟨⟨_, hptext⟩, ⟨_, hqtext⟩, ?_⟩
  rw [hptext, hqtext, Except.ok.injEq, PartOutline.text_inj (legible_outline hload h hp hpline)
    (legible_outline hload' h' hq hqline), Part.outline, Part.outline, PartOutline.mk.injEq]

/-- Two parts of one schema have different texts, as they are of different namespaces. -/
theorem text_determines_outline_of_garage : ∃ loaded parts, garageDocument.load = .ok loaded ∧
    loaded.registry.reflect [] = .ok parts ∧ ∃ p ∈ parts, ∃ q ∈ parts,
      p.OneLine ∧ q.OneLine ∧ p.text ≠ q.text := by
  have hload : garageDocument.load = .ok ⟨garage, garageDocument.warnings⟩ :=
    Document.load_eq_ok_iff.2 ⟨by decide, rfl⟩
  obtain ⟨parts, hparts, p, hp, q, hq, hpline, hqline, hns⟩ :
      ∃ parts, garage.reflect [] = .ok parts ∧ ∃ p ∈ parts, ∃ q ∈ parts,
        p.OneLine ∧ q.OneLine ∧ p.ns ≠ q.ns :=
    ⟨_, reflect_eq_ok_iff.2 ⟨not_onCycle_garage, rfl⟩, by decide⟩
  obtain ⟨-, -, hiff⟩ := text_determines_outline hload hload hparts hparts hp hq hpline hqline
  exact ⟨_, parts, hload, hparts, p, hp, q, hq, hpline, hqline, fun h => hns (hiff.1 h).1⟩

end Registry

end LedgerSchema
