import Mathlib
import LedgerSchema.Proofs.Value.Equivalence

/-!
Sets as what insertions make of them. A set looks new values up among the items that it kept, which
is as good as among all values so far: a value that was not kept equals a kept one, and equality is
transitive. Main statement: a set holds the first occurrences of the inserted values, and two sets
are equal exactly if each inserted value has an equal one on the other side.
-/

set_option autoImplicit false

namespace LedgerSchema

namespace Value

/-- What the insertions of some values answer, one after the other: whether the value was added. -/
def insertAnswers (items : List Value) : List Value → List Bool
  | [] => []
  | v :: rest => (!setContains items v) :: insertAnswers (setInsert items v) rest

theorem setContains_iff {items : List Value} {v : Value} :
    setContains items v = true ↔ ∃ a ∈ items, beq a v = true :=
  List.any_eq_true

theorem setContains_setInsert (items : List Value) (v w : Value) :
    setContains (setInsert items v) w = (setContains items w || v == w) := by
  unfold setInsert
  split
  · rename_i hv
    cases hvw : v == w with
    | false => rw [Bool.or_false]
    | true =>
      obtain ⟨a, ha, hav⟩ := setContains_iff.1 hv
      rw [Bool.or_true, setContains_iff]
      exact ⟨a, ha, beq_trans hav hvw⟩
  · simp [setContains]

theorem setContains_foldl_setInsert (l items : List Value) (w : Value) :
    setContains (l.foldl setInsert items) w = (setContains items w || l.any (· == w)) := by
  induction l generalizing items with
  | nil => simp
  | cons v rest ih => rw [List.foldl_cons, ih, setContains_setInsert, List.any_cons, Bool.or_assoc]

theorem setContains_setOfList (l : List Value) (w : Value) :
    setContains (setOfList l) w = l.any (· == w) :=
  setContains_foldl_setInsert l [] w

/-- A value is added if it equals no item and no value before it. -/
theorem insertAnswers_eq (items l : List Value) :
    insertAnswers items l =
      l.mapIdx fun i v => !(setContains items v || (l.take i).any (· == v)) := by
  induction l generalizing items with
  | nil => rfl
  | cons v rest ih =>
    rw [insertAnswers, ih, List.mapIdx_cons]
    simp [setContains_setInsert, Bool.or_assoc]

/-- The items are those from before and the values that were added, in the order of insertion. -/
theorem foldl_setInsert_eq (items l : List Value) :
    l.foldl setInsert items =
      items ++ ((l.zip (insertAnswers items l)).filter (·.2)).map (·.1) := by
  induction l generalizing items with
  | nil => simp
  | cons v rest ih =>
    rw [List.foldl_cons, ih, insertAnswers, List.zip_cons_cons]
    cases hv : setContains items v <;> simp [setInsert, hv]

theorem mem_of_mem_setOfList {l : List Value} {v : Value} (h : v ∈ setOfList l) : v ∈ l := by
  rw [setOfList, foldl_setInsert_eq, List.nil_append] at h
  obtain ⟨⟨w, answer⟩, hmem, rfl⟩ := List.mem_map.1 h
  exact (List.of_mem_zip (List.mem_filter.1 hmem).1).1

theorem pairwise_setOfList {l : List Value} (hl : ∀ v ∈ l, v.SetsBuilt) :
    (setOfList l).Pairwise fun a b => (a == b) = false ∧ (b == a) = false := by
  apply (distinct_setOfList l).imp_of_mem
  intro a b _ hb hab
  refine ⟨hab, Bool.eq_false_iff.2 fun hba => ?_⟩
  exact Bool.eq_false_iff.1 hab (beq_symm (hl b (mem_of_mem_setOfList hb)) hba)

/-- A value that was inserted is an item, or an item equals it. -/
theorem mem_or_setContains_setOfList {l : List Value} {v : Value} (hv : v ∈ l) :
    v ∈ setOfList l ∨ setContains (setOfList l) v = true := by
  obtain ⟨before, after, rfl⟩ := List.append_of_mem hv
  rw [setOfList, List.foldl_append, List.foldl_cons]
  cases hbefore : setContains (before.foldl setInsert []) v with
  | false =>
    left
    rw [foldl_setInsert_eq, setInsert, hbefore]
    simp
  | true =>
    right
    rw [setContains_foldl_setInsert, setContains_setInsert, hbefore]
    rfl

/-- Each item of a set has an equal one in another set exactly if each inserted value has an equal
one among the values inserted there. -/
theorem exists_item_iff {l l' : List Value} (hl : ∀ v ∈ l, v.SetsBuilt)
    (hl' : ∀ v ∈ l', v.SetsBuilt) :
    (∀ x ∈ setOfList l, ∃ y ∈ setOfList l', beq x y = true) ↔
      ∀ x ∈ l, ∃ y ∈ l', beq x y = true := by
  constructor
  · intro h x hx
    rcases mem_or_setContains_setOfList hx with hitem | hfound
    · obtain ⟨y, hy, hxy⟩ := h x hitem
      exact ⟨y, mem_of_mem_setOfList hy, hxy⟩
    · obtain ⟨a, ha, hax⟩ := setContains_iff.1 hfound
      obtain ⟨y, hy, hay⟩ := h a ha
      have hxa := beq_symm (hl a (mem_of_mem_setOfList ha)) hax
      exact ⟨y, mem_of_mem_setOfList hy, beq_trans hxa hay⟩
  · intro h x hx
    obtain ⟨y, hy, hxy⟩ := h x (mem_of_mem_setOfList hx)
    rcases mem_or_setContains_setOfList hy with hitem | hfound
    · exact ⟨y, hitem, hxy⟩
    · obtain ⟨b, hb, hby⟩ := setContains_iff.1 hfound
      have hyb := beq_symm (hl' b (mem_of_mem_setOfList hb)) hby
      exact ⟨b, hb, beq_trans hxy hyb⟩

theorem setsBuilt_setOfList {l : List Value} (hl : ∀ v ∈ l, v.SetsBuilt) :
    SetsBuilt (.set (setOfList l)) := by
  rw [SetsBuilt, setsBuiltItems_iff]
  exact ⟨⟨l, rfl⟩, fun v hv => hl v (mem_of_mem_setOfList hv)⟩

theorem length_setOfList_le {l l' : List Value} (hl : ∀ v ∈ l, v.SetsBuilt)
    (h : ∀ x ∈ setOfList l, ∃ y ∈ setOfList l', beq x y = true) :
    (setOfList l).length ≤ (setOfList l').length := by
  have : Nonempty Value := ⟨.null⟩
  apply length_le_of_partners h
  apply (distinct_setOfList l).apart
  intro x hx y hxy
  exact beq_symm (hl x (mem_of_mem_setOfList hx)) hxy

theorem set_setOfList_beq_iff {l l' : List Value} (hl : ∀ v ∈ l, v.SetsBuilt)
    (hl' : ∀ v ∈ l', v.SetsBuilt) :
    beq (.set (setOfList l)) (.set (setOfList l')) = true ↔
      (∀ x ∈ l, ∃ y ∈ l', beq x y = true) ∧ ∀ y ∈ l', ∃ x ∈ l, beq y x = true := by
  have hitems {k k' : List Value} :
      beq (.set (setOfList k)) (.set (setOfList k')) = true ↔
        (setOfList k).length = (setOfList k').length ∧
          ∀ x ∈ setOfList k, ∃ y ∈ setOfList k', beq x y = true := by
    rw [set_beq_iff]
    simp
  constructor
  · intro h
    have hback := beq_symm (setsBuilt_setOfList hl) h
    exact ⟨(exists_item_iff hl hl').1 (hitems.1 h).2, (exists_item_iff hl' hl).1 (hitems.1 hback).2⟩
  · rintro ⟨hto, hback⟩
    rw [← exists_item_iff hl hl'] at hto
    rw [← exists_item_iff hl' hl] at hback
    rw [hitems]
    refine ⟨le_antisymm ?_ ?_, hto⟩
    · exact length_setOfList_le hl hto
    · exact length_setOfList_le hl' hback

/-- A set holds the first occurrences of the values that were inserted. No two of its items are
equal; an insertion adds a value exactly if it equals none of those before, and the items are the
added values in the order of insertion; a value is found exactly if an inserted one equals it; and
two sets are equal exactly if each value inserted on one side has an equal one on the other, however
often and in whatever order. A value that is not equal to itself changes none of this. -/
theorem set_of_insertions {l : List Value} (hl : ∀ v ∈ l, v.SetsBuilt) :
    ((setOfList l).Pairwise fun a b => (a == b) = false ∧ (b == a) = false) ∧
    insertAnswers [] l = l.mapIdx (fun i v => !(l.take i).any (· == v)) ∧
    setOfList l = ((l.zip (insertAnswers [] l)).filter (·.2)).map (·.1) ∧
    (∀ v, setContains (setOfList l) v = l.any (· == v)) ∧
    ∀ l' : List Value, (∀ v ∈ l', v.SetsBuilt) →
      ((Value.set (setOfList l) == .set (setOfList l')) = true ↔
        (∀ x ∈ l, ∃ y ∈ l', (x == y) = true) ∧ ∀ y ∈ l', ∃ x ∈ l, (y == x) = true) := by
  refine ⟨pairwise_setOfList hl, ?_, foldl_setInsert_eq [] l, setContains_setOfList l,
    fun l' hl' => set_setOfList_beq_iff hl hl'⟩
  rw [insertAnswers_eq]
  rfl

/-- One set twice, in two orders, is one item; the set of the three values has two. -/
theorem set_of_insertions_of_labels :
    (∀ v ∈ [Labels.left, .integer 1, Labels.right], v.SetsBuilt) ∧
    insertAnswers [] [Labels.left, .integer 1, Labels.right] = [true, true, false] ∧
    (Value.set (setOfList [Labels.left, .integer 1, Labels.right]) ==
      .set (setOfList [.integer 1, Labels.right])) = true := by
  have hleft := Labels.setsBuilt_left
  have hright := Labels.setsBuilt_right
  have hl : ∀ v ∈ [Labels.left, .integer 1, Labels.right], v.SetsBuilt := by
    simp [hleft, hright, SetsBuilt]
  have hl' : ∀ v ∈ [.integer 1, Labels.right], v.SetsBuilt := by
    simp [hright, SetsBuilt]
  obtain ⟨-, hanswers, -, -, hequal⟩ := set_of_insertions hl
  refine ⟨hl, ?_, (hequal _ hl').2 ?_⟩
  · rw [hanswers]
    decide
  · decide

end Value

end LedgerSchema
