import Mathlib
import LedgerSchema.Instant.Calendar

/-!
Dates and day numbers: every day number has exactly one date, which is a valid one.
-/

set_option autoImplicit false

namespace LedgerSchema

theorem yearOfDay_spec (n : Int) :
    daysBeforeYear (yearOfDay n) ≤ n ∧ n < daysBeforeYear (yearOfDay n + 1) := by
  unfold yearOfDay
  dsimp only
  split
  · rename_i hlow
    rw [sub_add_cancel]
    refine ⟨?_, hlow⟩
    unfold daysBeforeYear
    omega
  · rename_i hlow
    split
    · rename_i hhigh
      refine ⟨hhigh, ?_⟩
      unfold daysBeforeYear
      omega
    · rename_i hhigh
      exact ⟨not_lt.1 hlow, not_le.1 hhigh⟩

theorem sum_monthLengths (year : Int) :
    ((monthLengths year).sum : Int) = daysBeforeYear (year + 1) - daysBeforeYear year := by
  rw [daysBeforeYear_succ, monthLengths]
  split <;> simp

theorem length_monthLengths (year : Int) : (monthLengths year).length = 12 := rfl

theorem le_of_mem_monthLengths {year : Int} {n : Nat} (h : n ∈ monthLengths year) : n ≤ 31 := by
  unfold monthLengths at h
  split at h <;> simp at h <;> omega

theorem splitMonths_spec (lens : List Nat) {n : Nat} (h : n < lens.sum) :
    ∃ len ∈ lens[(splitMonths lens n).1]?, (splitMonths lens n).2 < len ∧
      (lens.take (splitMonths lens n).1).sum + (splitMonths lens n).2 = n := by
  induction lens generalizing n with
  | nil => exact absurd h (Nat.not_lt_zero n)
  | cons len rest ih =>
    rw [splitMonths]
    split
    · rename_i hlt
      exact ⟨len, rfl, hlt, by simp⟩
    · rename_i hge
      rw [List.sum_cons] at h
      obtain ⟨len', hlen', hlt, hsum⟩ := ih (n := n - len) (by omega)
      rcases hsplit : splitMonths rest (n - len) with ⟨months, left⟩
      rw [hsplit] at hlen' hlt hsum
      dsimp only at hlen' hlt hsum ⊢
      refine ⟨len', hlen', hlt, ?_⟩
      rw [List.take_succ_cons, List.sum_cons]
      omega

namespace CivilDate

theorem splitMonths_dayOfYear (n : Int) :
    ∃ len ∈ (monthLengths (yearOfDay n))[(ofDayNumber n).month - 1]?,
      (ofDayNumber n).day ≤ len ∧
      (((monthLengths (yearOfDay n)).take ((ofDayNumber n).month - 1)).sum : Int) +
        ((ofDayNumber n).day - 1 : Nat) = n - daysBeforeYear (yearOfDay n) := by
  obtain ⟨hlow, hhigh⟩ := yearOfDay_spec n
  have hsum := sum_monthLengths (yearOfDay n)
  obtain ⟨len, hlen, hlt, htotal⟩ := splitMonths_spec (monthLengths (yearOfDay n))
    (n := (n - daysBeforeYear (yearOfDay n)).toNat) (by omega)
  refine ⟨len, hlen, hlt, ?_⟩
  rw [ofDayNumber]
  dsimp only
  rw [Nat.add_sub_cancel, Nat.add_sub_cancel]
  omega

theorem year_ofDayNumber (n : Int) : (ofDayNumber n).year = yearOfDay n := rfl

theorem one_le_month_ofDayNumber (n : Int) : 1 ≤ (ofDayNumber n).month := Nat.succ_pos _

theorem one_le_day_ofDayNumber (n : Int) : 1 ≤ (ofDayNumber n).day := Nat.succ_pos _

theorem month_ofDayNumber_le (n : Int) : (ofDayNumber n).month ≤ 12 := by
  obtain ⟨len, hlen, -⟩ := splitMonths_dayOfYear n
  obtain ⟨hlt, -⟩ := List.getElem?_eq_some_iff.1 hlen
  rw [length_monthLengths] at hlt
  omega

theorem day_ofDayNumber_le (n : Int) : (ofDayNumber n).day ≤ 31 := by
  obtain ⟨len, hlen, hle, -⟩ := splitMonths_dayOfYear n
  exact hle.trans (le_of_mem_monthLengths (List.mem_of_getElem? hlen))

theorem valid_ofDayNumber (n : Int) : (ofDayNumber n).Valid := by
  obtain ⟨len, hlen, hle, -⟩ := splitMonths_dayOfYear n
  exact ⟨one_le_month_ofDayNumber n, one_le_day_ofDayNumber n, len, hlen, hle⟩

theorem dayNumber_ofDayNumber (n : Int) : (ofDayNumber n).dayNumber = n := by
  obtain ⟨len, -, -, htotal⟩ := splitMonths_dayOfYear n
  rw [List.sum] at htotal
  rw [dayNumber, year_ofDayNumber]
  omega

end CivilDate

end LedgerSchema
