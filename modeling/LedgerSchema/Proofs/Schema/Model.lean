import Mathlib
import LedgerSchema.Proofs.Outcome
import LedgerSchema.Schema.Model

/-!
When a declared type has a model, and which one: the fields are those of the marked fields in their
order, and the key is the one primary field.
-/

set_option autoImplicit false

namespace LedgerSchema

namespace Model

theorem addField_eq_ok_iff {m m' : Model} {f : SchemaField} {primary : Bool} :
    m.addField f primary = (m', .ok ()) ↔
      (m.kind = .transaction → primary = false ∧ f.name ≠ transactionIdField) ∧
      (primary = true → m.key = none) ∧
      m' = { m with
        fields := m.fields ++ [f]
        keyIndex := if primary then some m.fields.length else m.keyIndex } := by
  unfold addField push
  cases primary <;> by_cases hkind : m.kind = .transaction <;>
    by_cases hname : f.name = transactionIdField <;> cases m.key <;>
    simp [hkind, hname, eq_comm]

theorem withField_eq_ok_iff {m m' : Model} {f : SchemaField} {primary : Bool} :
    m.withField f primary = .ok m' ↔ m.addField f primary = (m', .ok ()) := by
  unfold withField
  rcases m.addField f primary with ⟨m₁, e | ⟨⟨⟩⟩⟩ <;> simp

theorem keyIndex_ne_none_of_key {m : Model} {f : SchemaField} (h : m.key = some f) :
    m.keyIndex ≠ none := by
  intro hindex
  simp [key, hindex] at h

/-- The place of the key is one among the fields. -/
def KeyInFields (m : Model) : Prop := ∀ i, m.keyIndex = some i → i < m.fields.length

theorem keyInFields_of_eq_none {m : Model} (h : m.keyIndex = none) : m.KeyInFields := by
  simp [KeyInFields, h]

theorem KeyInFields.key_eq_none_iff {m : Model} (h : m.KeyInFields) :
    m.key = none ↔ m.keyIndex = none := by
  cases hindex : m.keyIndex with
  | none => simp [key, hindex]
  | some i => simp [key, hindex, h i hindex]

theorem KeyInFields.addField {m m' : Model} (h : m.KeyInFields) {f : SchemaField} {primary : Bool}
    (hadd : m.addField f primary = (m', .ok ())) : m'.KeyInFields := by
  obtain ⟨-, -, rfl⟩ := addField_eq_ok_iff.1 hadd
  intro i hi
  rw [List.length_append, List.length_singleton]
  cases primary with
  | true => cases hi; exact Nat.lt_succ_self _
  | false => exact Nat.lt_succ_of_lt (h i hi)

def addFields (m : Model) (calls : List (SchemaField × Bool)) : Except SchemaError Model :=
  calls.foldlM (fun m c => m.withField c.1 c.2) m

theorem addFields_cons (m : Model) (f : SchemaField) (primary : Bool)
    (calls : List (SchemaField × Bool)) :
    m.addFields ((f, primary) :: calls) = m.withField f primary >>= (·.addFields calls) :=
  List.foldlM_cons

theorem addFields_eq_ok_iff {m m' : Model} (hm : m.KeyInFields)
    {calls : List (SchemaField × Bool)} :
    m.addFields calls = .ok m' ↔
      (m.kind = .transaction → ∀ c ∈ calls, c.2 = false ∧ c.1.name ≠ transactionIdField) ∧
      m.keyIndex.toList.length + calls.countP (·.2) ≤ 1 ∧
      m' = { m with
        fields := m.fields ++ calls.map (·.1)
        keyIndex := m.keyIndex.or ((calls.findIdx? (·.2)).map (m.fields.length + ·)) } := by
  induction calls generalizing m with
  | nil =>
    have hlength : m.keyIndex.toList.length ≤ 1 := by cases m.keyIndex <;> simp
    have hsame : m.addFields [] = .ok m := rfl
    simp only [hsame, Except.ok.injEq, eq_comm (a := m)]
    simp [hlength]
  | cons c calls ih =>
    obtain ⟨f, primary⟩ := c
    rw [addFields_cons, bind_eq_ok_iff]
    have hstep {m₁ : Model} : m.withField f primary = .ok m₁ ∧ m₁.addFields calls = .ok m' ↔
        m.addField f primary = (m₁, .ok ()) ∧ m₁.addFields calls = .ok m' := by
      rw [withField_eq_ok_iff]
    simp only [hstep]
    constructor
    · rintro ⟨m₁, hadd, hrest⟩
      obtain ⟨hkinds, hcount, rfl⟩ := (ih (hm.addField hadd)).1 hrest
      obtain ⟨hkind, hkey, rfl⟩ := addField_eq_ok_iff.1 hadd
      rw [hm.key_eq_none_iff] at hkey
      refine ⟨fun h => List.forall_mem_cons.2 ⟨hkind h, hkinds h⟩, ?_, ?_⟩
      · cases primary with
        | true => simpa [hkey, Nat.add_comm] using hcount
        | false => simpa using hcount
      · cases primary with
        | true => simp [hkey, List.findIdx?_cons]
        | false => simp [List.findIdx?_cons, Function.comp_def, Nat.add_assoc, Nat.add_comm 1]
    · rintro ⟨hkinds, hcount, rfl⟩
      have hkey : primary = true → m.keyIndex = none := by
        rintro rfl
        cases hkey : m.keyIndex with
        | none => rfl
        | some key => simp [hkey] at hcount
      have hadd := addField_eq_ok_iff.2 ⟨fun h => (List.forall_mem_cons.1 (hkinds h)).1,
        fun h => hm.key_eq_none_iff.2 (hkey h), rfl⟩
      refine ⟨_, hadd, (ih (hm.addField hadd)).2
        ⟨fun h => (List.forall_mem_cons.1 (hkinds h)).2, ?_, ?_⟩⟩
      · cases primary with
        | true => simpa [hkey rfl, Nat.add_comm] using hcount
        | false => simpa using hcount
      · cases primary with
        | true => simp [hkey rfl, List.findIdx?_cons]
        | false => simp [List.findIdx?_cons, Function.comp_def, Nat.add_assoc, Nat.add_comm 1]

/-- The key is the field of the first call for a key, if its place is the place of that call. -/
theorem key_eq_map_find? {m : Model} {calls : List (SchemaField × Bool)}
    (hfields : m.fields = calls.map (·.1)) (hindex : m.keyIndex = calls.findIdx? (·.2)) :
    m.key = (calls.find? (·.2)).map (·.1) := by
  rw [key, hfields, hindex, List.find?_eq_bind_findIdx?_getElem?, Option.map_bind]
  simp

theorem validate_eq_ok_iff {m : Model} : m.validate = .ok () ↔
    (m.kind = .asset ∨ m.kind = .participant → m.keyIndex ≠ none ∨ m.parent ≠ none) := by
  unfold validate needsKey
  cases m.kind <;> cases m.keyIndex <;> cases m.parent <;> simp

end Model

namespace Registry

variable {r : Registry}

/-- The schema fields of declared fields, each with the mark that makes it the key. -/
def SchemaCalls (r : Registry) (owner : String) (fields : List Field)
    (calls : List (SchemaField × Bool)) : Prop :=
  List.Forall₂ (fun f c => r.schemaField owner f = .ok c.1 ∧ f.isPrimary = c.2) fields calls

theorem foldlM_withField_eq_ok_iff {owner : String} {fields : List Field} {m m' : Model} :
    fields.foldlM (fun m f => do
      let field ← r.schemaField owner f
      m.withField field f.isPrimary) m = .ok m' ↔
        ∃ calls, r.SchemaCalls owner fields calls ∧ m.addFields calls = .ok m' := by
  induction fields generalizing m with
  | nil => simp [SchemaCalls, Model.addFields]
  | cons f fields ih =>
    rw [List.foldlM_cons, bind_eq_ok_iff]
    constructor
    · rintro ⟨m₁, hstep, hrest⟩
      obtain ⟨s, hs, hadd⟩ := bind_eq_ok_iff.1 hstep
      obtain ⟨calls, hcalls, hrun⟩ := ih.1 hrest
      refine ⟨(s, f.isPrimary) :: calls, .cons ⟨hs, rfl⟩ hcalls, ?_⟩
      rw [Model.addFields_cons, bind_eq_ok_iff]
      exact ⟨m₁, hadd, hrun⟩
    · rintro ⟨_, _ | @⟨_, ⟨s, primary⟩, _, calls, ⟨hs, rfl⟩, hcalls⟩, hrun⟩
      rw [Model.addFields_cons, bind_eq_ok_iff] at hrun
      obtain ⟨m₁, hadd, hrun⟩ := hrun
      exact ⟨m₁, bind_eq_ok_iff.2 ⟨s, hs, hadd⟩, ih.2 ⟨calls, hcalls, hrun⟩⟩

theorem schemaField_eq_ok_iff {owner : String} {f : Field} {s : SchemaField} :
    r.schemaField owner f = .ok s ↔ ∃ shape,
      r.fieldShape s!"{owner}.{f.name}" f.type f.element = .ok shape ∧
        { name := f.name
          label := shape.1
          target := shape.2
          embedded := f.isEmbedded
          optional := f.isOptional
          default := f.default?
          range := f.range?
          regex := f.regex? : SchemaField } = s := map_eq_ok_iff

theorem name_of_schemaField {owner : String} {f : Field} {s : SchemaField}
    (h : r.schemaField owner f = .ok s) : s.name = f.name := by
  obtain ⟨shape, -, rfl⟩ := schemaField_eq_ok_iff.1 h
  rfl

/-- The parent that a model names is the registered one, and of the same kind. -/
theorem modelParent_eq_ok_iff {d : TypeDecl} {kind : Kind} {parent : Option ModelParent} :
    r.modelParent d kind = .ok parent ↔
      d.parent = none ∧ parent = none ∨
      ∃ name p, d.parent = some name ∧ r.type? name = some p ∧ p.kind = some kind ∧
        parent = some ⟨p.ns, p.name⟩ := by
  unfold modelParent
  cases hparent : d.parent with
  | none => simp [eq_comm]
  | some name =>
    cases htype : r.type? name with
    | none => simp [htype]
    | some p => by_cases hkind : p.kind = some kind <;> simp [hkind, htype, eq_comm]

theorem isSome_of_modelParent {d : TypeDecl} {kind : Kind} {parent : Option ModelParent}
    (h : r.modelParent d kind = .ok parent) : parent.isSome = d.parent.isSome := by
  rcases modelParent_eq_ok_iff.1 h with ⟨hd, rfl⟩ | ⟨name, p, hd, -, -, rfl⟩ <;> simp [hd]

structure KeyRules (kind : Kind) (d : TypeDecl) : Prop where
  transaction : kind = .transaction →
    ∀ f ∈ d.markedFields, f.isPrimary = false ∧ f.name ≠ transactionIdField
  atMostOne : d.markedFields.countP (·.isPrimary) ≤ 1
  hasKey : kind = .asset ∨ kind = .participant →
    (∃ f ∈ d.markedFields, f.isPrimary = true) ∨ d.parent ≠ none

/-- The model of a type: its own parent, its marked fields in their order, and its own key. -/
structure IsModelOf (r : Registry) (kind : Kind) (d : TypeDecl) (m : Model) : Prop where
  ns_eq : m.ns = d.ns
  name_eq : m.name = d.name
  kind_eq : m.kind = kind
  parent_eq : m.parent = (d.parent.bind r.type?).map fun p => ⟨p.ns, p.name⟩
  parent_kind : ∀ name, d.parent = some name → ∃ p, r.type? name = some p ∧ p.kind = some kind
  fields : List.Forall₂ (fun f s => r.schemaField d.qualifiedName f = .ok s) d.markedFields m.fields
  key : ∀ s, m.key = some s ↔ ∃ f, d.markedFields.find? (·.isPrimary) = some f ∧
    r.schemaField d.qualifiedName f = .ok s

theorem SchemaCalls.forall₂ {owner : String} {fields : List Field}
    {calls : List (SchemaField × Bool)} (h : r.SchemaCalls owner fields calls) :
    List.Forall₂ (fun f s => r.schemaField owner f = .ok s) fields (calls.map (·.1)) :=
  List.forall₂_map_right_iff.2 (h.imp fun _ _ hc => hc.1)

theorem SchemaCalls.countP {owner : String} {fields : List Field}
    {calls : List (SchemaField × Bool)} (h : r.SchemaCalls owner fields calls) :
    calls.countP (·.2) = fields.countP (·.isPrimary) := by
  induction h with
  | nil => rfl
  | cons hc _ ih => simp [List.countP_cons, ih, hc.2]

theorem SchemaCalls.find? {owner : String} {fields : List Field}
    {calls : List (SchemaField × Bool)} (h : r.SchemaCalls owner fields calls) (s : SchemaField) :
    (calls.find? (·.2)).map (·.1) = some s ↔ ∃ f, fields.find? (·.isPrimary) = some f ∧
      r.schemaField owner f = .ok s := by
  induction h with
  | nil => simp
  | @cons f c _ _ hc _ ih =>
    obtain ⟨t, primary⟩ := c
    obtain ⟨hf, rfl⟩ := hc
    cases hprimary : f.isPrimary with
    | true => simp [hprimary, hf]
    | false => simpa [hprimary] using ih

theorem SchemaCalls.forall_iff {owner : String} {fields : List Field}
    {calls : List (SchemaField × Bool)} (h : r.SchemaCalls owner fields calls)
    {P : Bool → String → Prop} :
    (∀ c ∈ calls, P c.2 c.1.name) ↔ ∀ f ∈ fields, P f.isPrimary f.name := by
  induction h with
  | nil => simp
  | cons hc _ ih =>
    rw [List.forall_mem_cons, List.forall_mem_cons, ih, hc.2, name_of_schemaField hc.1]

theorem model_eq_ok_iff {kind : Kind} {d : TypeDecl} {m : Model} :
    r.model kind d = .ok m ↔ ∃ parent calls, r.modelParent d kind = .ok parent ∧
      r.SchemaCalls d.qualifiedName d.markedFields calls ∧ KeyRules kind d ∧
      m = { ns := d.ns, name := d.name, kind, parent, fields := calls.map (·.1),
            keyIndex := calls.findIdx? (·.2) } := by
  have hrules {parent : Option ModelParent} {calls : List (SchemaField × Bool)}
      (hparent : r.modelParent d kind = .ok parent)
      (hcalls : r.SchemaCalls d.qualifiedName d.markedFields calls) :
      KeyRules kind d ↔
        (kind = .transaction → ∀ c ∈ calls, c.2 = false ∧ c.1.name ≠ transactionIdField) ∧
        calls.countP (·.2) ≤ 1 ∧
        (kind = .asset ∨ kind = .participant →
          calls.findIdx? (·.2) ≠ none ∨ parent ≠ none) := by
    have hown : calls.findIdx? (·.2) ≠ none ↔
        ∃ f ∈ d.markedFields, f.isPrimary = true := by
      rw [← List.countP_pos_iff, ← hcalls.countP, List.countP_pos_iff]
      simp
    have hsome : parent ≠ none ↔ d.parent ≠ none := by
      rw [← Option.isSome_iff_ne_none, ← Option.isSome_iff_ne_none, isSome_of_modelParent hparent]
    rw [hcalls.forall_iff (P := fun primary name => primary = false ∧ name ≠ transactionIdField),
      hcalls.countP, hown, hsome]
    exact ⟨fun h => ⟨h.transaction, h.atMostOne, h.hasKey⟩, fun h => ⟨h.1, h.2.1, h.2.2⟩⟩
  unfold model
  rw [bind_eq_ok_iff]
  refine exists_congr fun parent => ?_
  constructor
  · rintro ⟨hparent, hrun⟩
    obtain ⟨m₁, hfields, hrun⟩ := bind_eq_ok_iff.1 hrun
    obtain ⟨⟨⟩, hvalid, hm⟩ := bind_eq_ok_iff.1 hrun
    obtain rfl := Except.ok.inj hm
    obtain ⟨calls, hcalls, hadd⟩ := foldlM_withField_eq_ok_iff.1 hfields
    obtain ⟨htransaction, hcount, rfl⟩ :=
      (Model.addFields_eq_ok_iff (Model.keyInFields_of_eq_none rfl)).1 hadd
    refine ⟨calls, hparent, hcalls, (hrules hparent hcalls).2 ⟨htransaction, ?_, ?_⟩, by simp⟩
    · simpa using hcount
    · simpa using Model.validate_eq_ok_iff.1 hvalid
  · rintro ⟨calls, hparent, hcalls, hkey, rfl⟩
    obtain ⟨htransaction, hcount, hown⟩ := (hrules hparent hcalls).1 hkey
    refine ⟨hparent, bind_eq_ok_iff.2 ⟨_, foldlM_withField_eq_ok_iff.2 ⟨calls, hcalls,
      (Model.addFields_eq_ok_iff (Model.keyInFields_of_eq_none rfl)).2
        ⟨htransaction, by simpa using hcount, rfl⟩⟩, ?_⟩⟩
    refine bind_eq_ok_iff.2 ⟨(), Model.validate_eq_ok_iff.2 (by simpa using hown), ?_⟩
    simp [pure, Except.pure]

theorem isModelOf_of_model {kind : Kind} {d : TypeDecl} {m : Model} (h : r.model kind d = .ok m) :
    r.IsModelOf kind d m := by
  obtain ⟨parent, calls, hparent, hcalls, -, rfl⟩ := model_eq_ok_iff.1 h
  refine ⟨rfl, rfl, rfl, ?_, fun name hname => ?_, hcalls.forall₂, fun s => ?_⟩
  · rcases modelParent_eq_ok_iff.1 hparent with ⟨hd, rfl⟩ | ⟨name, p, hd, hp, -, rfl⟩
    · simp [hd]
    · simp [hd, hp]
  · rcases modelParent_eq_ok_iff.1 hparent with ⟨hd, -⟩ | ⟨name', p, hd, hp, hkind, -⟩
    · simp [hd] at hname
    · obtain rfl := Option.some.inj (hd.symm.trans hname)
      exact ⟨p, hp, hkind⟩
  · rw [Model.key_eq_map_find? rfl rfl]
    exact hcalls.find? s

/-- A type has a model if its parent and its fields can be written and the rules for keys hold. -/
theorem exists_model_iff {kind : Kind} {d : TypeDecl} :
    (∃ m, r.model kind d = .ok m) ↔ (∃ parent, r.modelParent d kind = .ok parent) ∧
      (∀ f ∈ d.markedFields, ∃ s, r.schemaField d.qualifiedName f = .ok s) ∧ KeyRules kind d := by
  constructor
  · rintro ⟨m, h⟩
    obtain ⟨parent, calls, hparent, hcalls, hkey, -⟩ := model_eq_ok_iff.1 h
    exact ⟨⟨parent, hparent⟩, exists_forall₂_iff.1 ⟨_, hcalls.forall₂⟩, hkey⟩
  · rintro ⟨⟨parent, hparent⟩, hfields, hkey⟩
    obtain ⟨calls, hcalls⟩ : ∃ calls, r.SchemaCalls d.qualifiedName d.markedFields calls :=
      exists_forall₂_iff.2 fun f hf => (hfields f hf).imp' (·, f.isPrimary) fun s hs => ⟨hs, rfl⟩
    exact ⟨_, model_eq_ok_iff.2 ⟨parent, calls, hparent, hcalls, hkey, rfl⟩⟩

end Registry

end LedgerSchema
