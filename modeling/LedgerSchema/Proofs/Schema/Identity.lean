import Mathlib
import LedgerSchema.Proofs.Schema.Reflection
import LedgerSchema.Proofs.Wire.Reference
import LedgerSchema.Schema.Text

/-!
The identity of assets and participants. A model without a key of its own has a parent of the same
kind, and lines of ancestors end, so the nearest key along the line is the one that the schema names
and the one that references are written with.
-/

set_option autoImplicit false

namespace LedgerSchema

namespace Model

theorem identityClause_eq_ownKey_iff {m : Model} {name : String} :
    m.identityClause = .ownKey name ↔ (m.kind = .asset ∨ m.kind = .participant) ∧
      ∃ key, m.key = some key ∧ key.name = name := by
  unfold identityClause
  cases m.kind <;> cases m.key <;> cases m.parent <;> simp

theorem text_of_ownKey {m : Model} {name : String} (h : m.identityClause = .ownKey name) :
    ∃ rest, m.text =
      .ok (m.kind.keyword ++ " " ++ m.name ++ " identified by " ++ name ++ rest) := by
  obtain ⟨hkind, key, hkey, rfl⟩ := identityClause_eq_ownKey_iff.1 h
  have hvalid : m.validate = .ok () :=
    validate_eq_ok_iff.2 fun _ => .inl (keyIndex_ne_none_of_key hkey)
  refine ⟨" \x7b\n" ++ String.join (m.fields.map (·.line)) ++ "\x7d\n", ?_⟩
  rw [text, hvalid, h]
  simp [Except.map, IdentityClause.text, String.append_assoc, toString]

end Model

namespace Registry

variable {r : Registry} {parts : List Part}

def BlockOf (parts : List Part) (d : TypeDecl) (m : Model) : Prop :=
  ∃ p ∈ parts, p.ns = d.ns ∧ m ∈ p.models ∧ m.name = d.name

/-- The block of a reflected type is its model. -/
theorem blockOf_iff (hbuilt : r.Built) {excluded : List String}
    (h : r.reflect excluded = .ok parts) {k : Kind} {d : TypeDecl}
    (hd : (k, d) ∈ r.reflectedTypes excluded) {m : Model} :
    BlockOf parts d m ↔ r.model k d = .ok m := by
  obtain ⟨entities, hparts, hreflected⟩ := exists_reflected hbuilt h
  obtain ⟨hmem, hk, -, -, hne⟩ := mem_reflectedTypes_iff.1 hd
  obtain ⟨own, hown, hmodel⟩ := exists_mem_right hreflected.models hd
  have hin (m : Model) (p : Part) : m ∈ p.models ↔ .model m ∈ p.entities :=
    SchemaEntity.mem_filterMap_model?_iff
  have howned : .model own ∈ entities := (mem_ownModels_iff.1 hown).1
  have hspec := isModelOf_of_model hmodel
  constructor
  · rintro ⟨p, hp, hns, hm, hname⟩
    have hm : .model m ∈ entities := hparts.mem_iff.1 ⟨p, hp, (hin m p).1 hm⟩
    have hns' : m.ns = p.ns := hparts.ns_eq hp ((hin m p).1 ‹_›)
    have hkey : SchemaEntity.key (.model m) = SchemaEntity.key (.model own) := by
      change (m.ns, m.name) = (own.ns, own.name)
      rw [hns', hns, hname, hspec.ns_eq, hspec.name_eq]
    have heq := (hreflected.mayDeclare _ hm).eq_of_key hbuilt (hreflected.mayDeclare _ howned) hkey
    rwa [SchemaEntity.model.inj heq]
  · intro hm
    obtain rfl := Except.ok.inj (hm.symm.trans hmodel)
    obtain ⟨p, hp, hmp⟩ := hparts.mem_iff.2 howned
    exact ⟨p, hp, (hparts.ns_eq hp hmp).symm.trans hspec.ns_eq, (hin m p).2 hmp, hspec.name_eq⟩

theorem find?_isPrimary_markedFields (d : TypeDecl) :
    d.markedFields.find? (·.isPrimary) = d.fields.find? (·.isPrimary) := by
  rw [TypeDecl.markedFields, List.find?_filter]
  congr 1
  funext f
  cases hf : f.isPrimary with
  | true => simp [Field.isMarked_of_isPrimary hf]
  | false => simp

theorem primaryField?_of_ancestors {name : String} {d : TypeDecl} {rest : List TypeDecl}
    (h : r.ancestors name = d :: rest) : r.primaryField? name =
      (d.markedFields.find? (·.isPrimary)).or
        ((rest.flatMap (·.fields)).find? (·.isPrimary)) := by
  rw [primaryField?, declaredFields, h, List.flatMap_cons, List.find?_append,
    find?_isPrimary_markedFields]

/-- The key of a type is the one that the nearest model with a key names. -/
structure Identifies (r : Registry) (k : Kind) (name : String) (f : Field) : Prop where
  primary : r.primaryField? name = some f
  nearest : ∃ before owner after m, r.ancestors name = before ++ owner :: after ∧
    (∀ d ∈ before, d.kind = some k ∧
      ∃ b, r.model k d = .ok b ∧ ∀ key, b.identityClause ≠ .ownKey key) ∧
    owner.kind = some k ∧ r.model k owner = .ok m ∧ m.identityClause = .ownKey f.name ∧
    ∃ key, m.key = some key ∧ r.schemaField owner.qualifiedName f = .ok key

variable {k : Kind} {d : TypeDecl} {m : Model} {f : Field}

/-- A type with a key of its own is identified by it. -/
theorem identifies_of_own (hkind : k = .asset ∨ k = .participant) (hd : d ∈ r.types)
    (hk : d.kind = some k) (hm : r.model k d = .ok m)
    (hf : d.markedFields.find? (·.isPrimary) = some f) : r.Identifies k d.qualifiedName f := by
  have hspec := isModelOf_of_model hm
  obtain ⟨rest, hrest⟩ :=
    (r.walk_ancestors d.qualifiedName).eq_cons List.not_mem_nil (type?_qualifiedName.2 hd)
  obtain ⟨s, hs⟩ := exists_schemaField_of_model hm (List.mem_of_find?_eq_some hf)
  have hkey : m.key = some s := (hspec.key s).2 ⟨f, hf, hs⟩
  refine ⟨by rw [primaryField?_of_ancestors hrest, hf, Option.some_or], [], d, rest, m, hrest,
    by simp, hk, hm, ?_, s, hkey, hs⟩
  refine Model.identityClause_eq_ownKey_iff.2 ⟨?_, s, hkey, name_of_schemaField hs⟩
  rwa [hspec.kind_eq]

/-- A type without a key of its own is identified as its parent is. -/
theorem identifies_of_parent (hcycle : ¬ r.OnCycle d.qualifiedName) (hd : d ∈ r.types)
    (hk : d.kind = some k) (hm : r.model k d = .ok m)
    (hnone : d.markedFields.find? (·.isPrimary) = none) {parent : String}
    (hparent : d.parent = some parent) (h : r.Identifies k parent f) :
    r.Identifies k d.qualifiedName f := by
  have hspec := isModelOf_of_model hm
  have hline := ancestors_of_parent (type?_qualifiedName.2 hd) hparent hcycle
  obtain ⟨hprimary, before, owner, after, b, hancestors, hbefore, hrest⟩ := h
  refine ⟨?_, d :: before, owner, after, b, by rw [hline, hancestors]; rfl, ?_, hrest⟩
  · rw [primaryField?_of_ancestors hline, hnone, Option.none_or]
    exact hprimary
  · refine List.forall_mem_cons.2 ⟨⟨hk, m, hm, fun key hkey => ?_⟩, hbefore⟩
    obtain ⟨-, s, hs, -⟩ := Model.identityClause_eq_ownKey_iff.1 hkey
    obtain ⟨f, hf, -⟩ := (hspec.key s).1 hs
    rw [hnone] at hf
    cases hf

/-- All types on a line are of one kind, if those of that kind have models. -/
theorem kind_of_mem_ancestors (hacyclic : ∀ n, ¬ r.OnCycle n) {k : Kind} {d : TypeDecl}
    (hmodels : ∀ e ∈ r.ancestors d.qualifiedName, e.kind = some k → ∃ m, r.model k e = .ok m)
    (hd : d ∈ r.types) (hk : d.kind = some k) {e : TypeDecl}
    (he : e ∈ r.ancestors d.qualifiedName) : e.kind = some k := by
  generalize hname : d.qualifiedName = name at hmodels he
  induction name using line_induction hacyclic generalizing d with
  | step name ih =>
    subst hname
    have hself := type?_qualifiedName.2 hd
    cases hparent : d.parent with
    | none =>
      rw [ancestors_of_root hself hparent, List.mem_singleton] at he
      rwa [he]
    | some parent =>
      have hline := ancestors_of_parent hself hparent (hacyclic _)
      rw [hline] at hmodels he
      obtain ⟨m, hm⟩ := hmodels d List.mem_cons_self hk
      obtain ⟨p, hp, hpk⟩ := (isModelOf_of_model hm).parent_kind parent hparent
      rcases List.mem_cons.1 he with rfl | he
      · exact hk
      · exact ih parent (parentLink_iff.2 ⟨d, hself, hparent⟩) (mem_of_type? hp) hpk
          (qualifiedName_of_type? hp) (fun e he => hmodels e (List.mem_cons_of_mem _ he)) he

/-- An asset or a participant is identified if the types on its line have models. -/
theorem exists_identifies (hacyclic : ∀ n, ¬ r.OnCycle n) (hkind : k = .asset ∨ k = .participant)
    (hmodels : ∀ e ∈ r.ancestors d.qualifiedName, e.kind = some k → ∃ m, r.model k e = .ok m)
    (hd : d ∈ r.types) (hk : d.kind = some k) : ∃ f, r.Identifies k d.qualifiedName f := by
  generalize hname : d.qualifiedName = name at hmodels
  induction name using line_induction hacyclic generalizing d with
  | step name ih =>
    subst hname
    have hself := type?_qualifiedName.2 hd
    obtain ⟨m, hm⟩ := hmodels d (mem_ancestors_iff.2 ⟨hself, .refl⟩) hk
    cases hf : d.markedFields.find? (·.isPrimary) with
    | some f => exact ⟨f, identifies_of_own hkind hd hk hm hf⟩
    | none =>
      have hown : ¬ ∃ f ∈ d.markedFields, f.isPrimary = true := by
        rintro ⟨f, hmem, hprimary⟩
        exact absurd hprimary (by simpa using List.find?_eq_none.1 hf f hmem)
      have hrules := (exists_model_iff.1 ⟨m, hm⟩).2.2
      obtain ⟨parent, hparent⟩ :=
        Option.ne_none_iff_exists'.1 ((hrules.hasKey hkind).resolve_left hown)
      obtain ⟨p, hp, hpk⟩ := (isModelOf_of_model hm).parent_kind parent hparent
      rw [ancestors_of_parent hself hparent (hacyclic _)] at hmodels
      obtain ⟨f, hidentifies⟩ := ih parent (parentLink_iff.2 ⟨d, hself, hparent⟩)
        (mem_of_type? hp) hpk (qualifiedName_of_type? hp)
        fun e he => hmodels e (List.mem_cons_of_mem _ he)
      exact ⟨f, identifies_of_parent (hacyclic _) hd hk hm hf hparent hidentifies⟩

/-- Every asset and every participant of an accepted registry has a key: the field that is named by
the first block along its line of ancestors that is written with a key. So neither its reference nor
an instance from a key text can fail for want of a key field. -/
theorem identity_of_asset_or_participant (hbuilt : r.Built)
    (hentry : r.type? entryName = some .entry) (h : r.reflect [] = .ok parts) {d : TypeDecl}
    (hd : d ∈ r.types) (hkind : d.kind = some .asset ∨ d.kind = some .participant) :
    (∃ f before owner after m, r.primaryField? d.qualifiedName = some f ∧
      r.ancestors d.qualifiedName = before ++ owner :: after ∧
      (∀ e ∈ before, ∃ b, BlockOf parts e b ∧ ∀ key, b.identityClause ≠ .ownKey key) ∧
      BlockOf parts owner m ∧ m.identityClause = .ownKey f.name ∧
      (∃ key, m.key = some key ∧ r.schemaField owner.qualifiedName f = .ok key) ∧
      ∃ rest, m.text =
        .ok (m.kind.keyword ++ " " ++ m.name ++ " identified by " ++ f.name ++ rest)) ∧
    (∀ x : Resource, x.type = d.qualifiedName → ∀ name,
      Wire.reference r x ≠ .error (.noKeyField name)) ∧
    ∀ key name, Wire.ofKey r key d.qualifiedName ≠ .error (.noKeyField name) := by
  obtain ⟨k, hk, hkind⟩ : ∃ k, d.kind = some k ∧ (k = .asset ∨ k = .participant) := by
    rcases hkind with hk | hk
    · exact ⟨.asset, hk, .inl rfl⟩
    · exact ⟨.participant, hk, .inr rfl⟩
  have hreflected {e : TypeDecl} (he : e ∈ r.types) (hek : e.kind = some k) :
      (k, e) ∈ r.reflectedTypes [] := by
    refine mem_reflectedTypes_iff.2
      ⟨he, hek, by rcases hkind with rfl | rfl <;> decide, by simp, fun heq => ?_⟩
    rw [← heq, type?_qualifiedName.2 he] at hentry
    obtain rfl := Option.some.inj hentry
    rcases hkind with rfl | rfl <;> cases hek
  have hblock {e : TypeDecl} (he : e ∈ r.ancestors d.qualifiedName) (hek : e.kind = some k)
      {b : Model} (hb : r.model k e = .ok b) : BlockOf parts e b :=
    (blockOf_iff hbuilt h (hreflected (mem_of_type? (mem_ancestors_iff.1 he).1) hek)).2 hb
  obtain ⟨f, hf, before, owner, after, m, hline, hbefore, hok, hm, hclause, hkey⟩ :=
    exists_identifies (reflect_eq_ok_iff.1 h).1 hkind
      (fun e he hek => exists_model_of_reflect h
        (hreflected (mem_of_type? (mem_ancestors_iff.1 he).1) hek)) hd hk
  refine ⟨⟨f, before, owner, after, m, hf, hline, fun e he => ?_, hblock (by simp [hline]) hok hm,
    hclause, hkey, Model.text_of_ownKey hclause⟩, fun x hx name => ?_, Wire.ofKey_ne_noKeyField hf⟩
  · obtain ⟨hek, b, hb, hne⟩ := hbefore e he
    exact ⟨b, hblock (by simp [hline, he]) hek hb, hne⟩
  · exact Wire.reference_ne_noKeyField (hx ▸ hf) name

theorem identity_of_car : garage.Built ∧ garage.type? entryName = some .entry ∧
    ∃ parts, garage.reflect [] = .ok parts ∧
    garage.primaryField? "org.acme.Car" =
      some { Field.data "vin" (.primitive .string) with primary := true } ∧
    (∃ b, BlockOf parts Garage.car b ∧ ∀ key, b.identityClause ≠ .ownKey key) ∧
    (∃ b, BlockOf parts Garage.vehicle b ∧ b.identityClause = .ownKey "vin" ∧
      ∃ rest, b.text = .ok ("asset Vehicle identified by vin" ++ rest)) ∧
    (∀ name, Wire.reference garage (Resource.empty "org.acme.Car") ≠ .error (.noKeyField name)) ∧
    ∀ key name, Wire.ofKey garage key "org.acme.Car" ≠ .error (.noKeyField name) := by
  obtain ⟨parts, hparts, -, -⟩ := exists_reflect_garage
  have hcar : Garage.car ∈ garage.types := by decide
  obtain ⟨⟨f, before, owner, after, m, hf, hline, hbefore, hblock, hclause, -, rest, htext⟩,
    hreference, hofKey⟩ := identity_of_asset_or_participant built_garage rfl hparts hcar (.inl rfl)
  have hmodel {d : TypeDecl} (hd : (.asset, d) ∈ garage.reflectedTypes []) {b : Model}
      (hb : BlockOf parts d b) : garage.model .asset d = .ok b :=
    (blockOf_iff built_garage hparts hd).1 hb
  cases primaryField_car_garage.symm.trans hf
  -- The car has no key of its own, so the first block with one is that of the vehicle.
  rw [show Garage.car.qualifiedName = "org.acme.Car" from rfl, ancestors_car_garage] at hline
  obtain _ | ⟨car, _ | ⟨vehicle, before⟩⟩ := before
  · obtain ⟨rfl, -⟩ := List.cons.inj hline
    cases hmodel (by decide) hblock
    cases hclause
  · obtain ⟨hfirst, hline⟩ := List.cons.inj hline
    obtain rfl : Garage.vehicle = owner := (List.cons.inj hline).1
    subst hfirst
    refine ⟨built_garage, rfl, parts, hparts, primaryField_car_garage, hbefore _ List.mem_cons_self,
      ⟨m, hblock, hclause, rest, ?_⟩, fun name => hreference _ rfl name, hofKey⟩
    cases hmodel (by decide) hblock
    exact htext
  · simp at hline

end Registry

end LedgerSchema
