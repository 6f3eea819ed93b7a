import Mathlib
import LedgerSchema.Proofs.Schema.Model

/-!
Models that are built call by call, where a call that fails leaves the model as it was and the next
one follows. Such a run ends where the run of its accepted calls ends, in which nothing fails: what
holds after that run, the rules for keys among it, holds of every mixture of calls.
-/

set_option autoImplicit false

namespace LedgerSchema

namespace Model

def after (m : Model) (calls : List (SchemaField × Bool)) : Model :=
  calls.foldl (fun m c => (m.addField c.1 c.2).1) m

def accepted (m : Model) : List (SchemaField × Bool) → List (SchemaField × Bool)
  | [] => []
  | c :: calls =>
    match m.addField c.1 c.2 with
    | (m, .ok ()) => c :: m.accepted calls
    | (m, .error _) => m.accepted calls

/-- A refused call ends before anything is noted. -/
theorem addField_fst_of_error {m : Model} {f : SchemaField} {primary : Bool} {e : SchemaError}
    (h : (m.addField f primary).2 = .error e) : (m.addField f primary).1 = m := by
  unfold addField at h ⊢
  split_ifs at h ⊢
  · rfl
  · rfl
  · cases hkey : m.key with
    | none => simp [hkey] at h
    | some key => rfl

theorem KeyInFields.addField_fst {m : Model} (h : m.KeyInFields) (f : SchemaField)
    (primary : Bool) : (m.addField f primary).1.KeyInFields := by
  cases hresult : (m.addField f primary).2 with
  | error e => rwa [addField_fst_of_error hresult]
  | ok => exact h.addField (Prod.ext rfl hresult)

theorem KeyInFields.after {m : Model} (h : m.KeyInFields) (calls : List (SchemaField × Bool)) :
    (m.after calls).KeyInFields := by
  induction calls generalizing m with
  | nil => exact h
  | cons c calls ih => exact ih (h.addField_fst c.1 c.2)

/-- The calls that succeed in a run succeed without the others, and lead to the same model. -/
theorem addFields_accepted (m : Model) (calls : List (SchemaField × Bool)) :
    m.addFields (m.accepted calls) = .ok (m.after calls) := by
  induction calls generalizing m with
  | nil => rfl
  | cons c calls ih =>
    obtain ⟨f, primary⟩ := c
    rw [accepted, after, List.foldl_cons]
    cases hresult : (m.addField f primary).2 with
    | error e =>
      have hcall : m.addField f primary = (m, .error e) :=
        Prod.ext (addField_fst_of_error hresult) hresult
      simp only [hcall]
      exact ih m
    | ok =>
      have hcall : m.addField f primary = ((m.addField f primary).1, .ok ()) :=
        Prod.ext rfl hresult
      rw [hcall]
      dsimp only
      rw [addFields_cons, withField_eq_ok_iff.2 hcall]
      exact ih _

/-- A model of another kind than a transaction refuses a second key, and nothing else. -/
theorem addField_primary_eq_error_iff {m : Model} (hkind : m.kind ≠ .transaction)
    {f : SchemaField} {e : SchemaError} :
    (m.addField f true).2 = .error e ↔
      ∃ key, m.key = some key ∧ e = .duplicateKey key.name f.name := by
  unfold addField
  cases m.key with
  | none => simp [hkind]
  | some key => simp [hkind, eq_comm]

structure IsFresh (m : Model) : Prop where
  fields : m.fields = []
  keyIndex : m.keyIndex = none

/-- The rules for keys hold of the accepted calls, and the model is made of them. -/
theorem after_eq {m : Model} (h : m.IsFresh) (calls : List (SchemaField × Bool)) :
    (m.kind = .transaction → ∀ c ∈ m.accepted calls, c.2 = false ∧ c.1.name ≠ transactionIdField) ∧
    (m.accepted calls).countP (·.2) ≤ 1 ∧
    m.after calls = { m with
      fields := (m.accepted calls).map (·.1)
      keyIndex := (m.accepted calls).findIdx? (·.2) } := by
  simpa [h.fields, h.keyIndex] using
    (addFields_eq_ok_iff (keyInFields_of_eq_none h.keyIndex)).1 (m.addFields_accepted calls)

theorem key_after {m : Model} (h : m.IsFresh) (calls : List (SchemaField × Bool)) :
    (m.after calls).key = ((m.accepted calls).find? (·.2)).map (·.1) := by
  rw [(after_eq h calls).2.2]
  exact key_eq_map_find? rfl rfl

theorem exists_key_after_iff {m : Model} (h : m.IsFresh) {calls : List (SchemaField × Bool)} :
    (∃ key, (m.after calls).key = some key) ↔ ∃ c ∈ m.accepted calls, c.2 = true := by
  rw [key_after h, ← Option.isSome_iff_exists]
  simp

/-- Whatever is called on a fresh model, and in whichever order, a call that fails changes nothing:
the model is the one of the accepted calls. Its fields are theirs, its key is the field of the only
one of them that asks for a key, and the place that it notes for the key is one among the fields. A
transaction gets neither a key nor the reserved field, and a model of another kind refuses a key
exactly when it has one, naming both. -/
theorem identity_of_run (ns name : String) (kind : Kind) (parent : Option ModelParent)
    (calls : List (SchemaField × Bool)) :
    let m : Model := { ns, name, kind, parent }
    (∀ f primary e, ((m.after calls).addField f primary).2 = .error e →
      ((m.after calls).addField f primary).1 = m.after calls) ∧
    m.addFields (m.accepted calls) = .ok (m.after calls) ∧
    m.after calls = { m with
      fields := (m.accepted calls).map (·.1)
      keyIndex := (m.accepted calls).findIdx? (·.2) } ∧
    (m.accepted calls).countP (·.2) ≤ 1 ∧
    (∀ i, (m.after calls).keyIndex = some i → i < (m.after calls).fields.length) ∧
    (m.after calls).key = ((m.accepted calls).find? (·.2)).map (·.1) ∧
    (kind = .transaction → (m.after calls).key = none ∧
      ∀ f ∈ (m.after calls).fields, f.name ≠ transactionIdField) ∧
    (kind ≠ .transaction → ∀ f,
      ((∃ e, ((m.after calls).addField f true).2 = .error e) ↔
        ∃ c ∈ m.accepted calls, c.2 = true) ∧
      ∀ e, ((m.after calls).addField f true).2 = .error e →
        ∃ key, (m.after calls).key = some key ∧ e = .duplicateKey key.name f.name) := by
  intro m
  have hfresh : m.IsFresh := ⟨rfl, rfl⟩
  obtain ⟨htransaction, hcount, heq⟩ := after_eq hfresh calls
  refine ⟨fun f primary e => addField_fst_of_error, m.addFields_accepted calls, heq, hcount,
    (keyInFields_of_eq_none hfresh.keyIndex).after calls, key_after hfresh calls,
    fun hkind => ⟨?_, ?_⟩, fun hkind f => ⟨?_, ?_⟩⟩
  · rw [key_after hfresh,
      List.find?_eq_none.2 fun c hc => by simp [(htransaction hkind c hc).1]]
    rfl
  · rw [heq]
    exact List.forall_mem_map.2 fun c hc => (htransaction hkind c hc).2
  all_goals have hsame : (m.after calls).kind ≠ .transaction := by rwa [heq]
  · simp only [addField_primary_eq_error_iff hsame, ← exists_key_after_iff hfresh]
    exact ⟨fun ⟨_, key, hsome, _⟩ => ⟨key, hsome⟩, fun ⟨key, hsome⟩ => ⟨_, key, hsome, rfl⟩⟩
  · exact fun e => (addField_primary_eq_error_iff hsame).1

/-- A second key is refused, and the field after it is still added. -/
theorem identity_of_run_of_two_keys :
    let car : Model := { ns := "org.fleet", name := "Car", kind := .asset }
    let id : SchemaField := { name := "id", label := "String" }
    let plate : SchemaField := { name := "plate", label := "String" }
    let seats : SchemaField := { name := "seats", label := "Integer" }
    car.accepted [(seats, false), (id, true), (plate, true)] = [(seats, false), (id, true)] ∧
    car.after [(seats, false), (id, true), (plate, true)] =
      { car with fields := [seats, id], keyIndex := some 1 } ∧
    (car.after [(seats, false), (id, true), (plate, true)]).key = some id ∧
    ∃ e, ((car.after [(id, true)]).addField plate true).2 = .error e ∧
      ((car.after [(id, true)]).addField plate true).1 = car.after [(id, true)] := by
  intro car id plate seats
  obtain ⟨-, -, heq, -, -, hkey, -⟩ := identity_of_run "org.fleet" "Car" .asset none
    [(seats, false), (id, true), (plate, true)]
  obtain ⟨hsame, -, -, -, -, -, -, hrefused⟩ :=
    identity_of_run "org.fleet" "Car" .asset none [(id, true)]
  obtain ⟨e, he⟩ := (hrefused (by decide) plate).1.2 ⟨(id, true), by decide, rfl⟩
  exact ⟨by decide, heq, hkey, e, he, hsame plate true e he⟩

end Model

end LedgerSchema
