import Mathlib
import LedgerSchema.Proofs.Value.Structure

/-!
Sets of values: building a set keeps a list whose items are pairwise distinct as it is, and always
gives such a list.
-/

set_option autoImplicit false

namespace LedgerSchema

namespace Value

def Distinct (items : List Value) : Prop := items.Pairwise fun a b => (a == b) = false

instance (items : List Value) : Decidable (Distinct items) :=
  inferInstanceAs (Decidable (items.Pairwise fun a b => (a == b) = false))

theorem setContains_eq_false_iff {items : List Value} {v : Value} :
    setContains items v = false ↔ ∀ a ∈ items, (a == v) = false := by
  simp [setContains]

theorem distinct_append_singleton_iff {items : List Value} {v : Value} :
    Distinct (items ++ [v]) ↔ Distinct items ∧ setContains items v = false := by
  rw [setContains_eq_false_iff, Distinct, List.pairwise_append]
  simp [Distinct]

theorem distinct_setInsert {items : List Value} (h : Distinct items) (v : Value) :
    Distinct (setInsert items v) := by
  unfold setInsert
  split
  · exact h
  · rename_i hv
    exact distinct_append_singleton_iff.2 ⟨h, Bool.eq_false_iff.2 hv⟩

theorem distinct_setOfList (items : List Value) : Distinct (setOfList items) := by
  have run : ∀ acc, Distinct acc → Distinct (items.foldl setInsert acc) := by
    induction items with
    | nil => exact fun acc h => h
    | cons v rest ih => exact fun acc h => ih _ (distinct_setInsert h v)
  exact run [] List.Pairwise.nil

theorem setOfList_of_distinct {items : List Value} (h : Distinct items) :
    setOfList items = items := by
  have run : ∀ acc, Distinct (acc ++ items) → items.foldl setInsert acc = acc ++ items := by
    clear h
    induction items with
    | nil => exact fun acc _ => by simp
    | cons v rest ih =>
      intro acc h
      have hprefix : Distinct ((acc ++ [v]) ++ rest) := by simpa using h
      have hv : setContains acc v = false :=
        (distinct_append_singleton_iff.1 (List.pairwise_append.1 hprefix).1).2
      rw [List.foldl_cons, setInsert, hv, if_neg Bool.false_ne_true, ih _ hprefix]
      simp
  exact run [] h

/-- Whether items are distinct does not depend on their null fields. -/
theorem distinct_iff_of_compact_eq {xs ys : List Value} (h : xs.map compact = ys.map compact) :
    Distinct xs ↔ Distinct ys := by
  have key (items : List Value) :
      Distinct items ↔ (items.map compact).Pairwise fun a b => (a == b) = false := by
    rw [List.pairwise_map]
    refine List.Pairwise.iff fun a b => ?_
    change beq a b = false ↔ beq a.compact b.compact = false
    rw [beq_compact]
  rw [key, key, h]

end Value

end LedgerSchema
