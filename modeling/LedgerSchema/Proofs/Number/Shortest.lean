import Mathlib
import LedgerSchema.Proofs.Number.Digits
import LedgerSchema.Proofs.Number.Rounding

/-!
The shortest decimal of a finite double: it has at least one digit, and no double is nearer to it.
-/

set_option autoImplicit false

namespace LedgerSchema

namespace DecimalText

def Numeral (t : DecimalText) : Prop := t.digits ≠ [] ∧ t.digits.all Char.isDigit = true

def nearest (negative : Bool) (t : DecimalText) : Binary64 :=
  .ofDecimal negative (natOfDigits t.digits) (t.exponent + 1 - t.digits.length)

end DecimalText

namespace Binary64

theorem ext {x y : Binary64} (hnegative : x.negative = y.negative)
    (hmagnitude : x.magnitude = y.magnitude) : x = y := by
  cases x
  cases y
  cases hnegative
  cases hmagnitude
  rfl

theorem readsBack_of_nearerNeighbour? {reads : Nat → Bool} {low rest unit n : Nat}
    (h : nearerNeighbour? reads low rest unit = some n) : reads n = true := by
  unfold nearerNeighbour? at h
  split at h
  · rename_i hlow hhigh
    split at h
    · cases h
      exact hlow
    · split at h
      · cases h
        exact hhigh
      · split at h
        · cases h
          exact hlow
        · cases h
          exact hhigh
  · rename_i hlow _
    cases h
    exact hlow
  · rename_i _ hhigh
    cases h
    exact hhigh
  · cases h

theorem readsBack_iff {m dropped n : Nat} :
    readsBack m dropped n = true ↔
      (ofDecimal false n ((dropped : Int) - unitExponent)).magnitude = m := by
  rw [readsBack, beq_iff_eq]

theorem unitsOf_ne_zero {m : Nat} (h : m ≠ 0) : unitsOf m ≠ 0 := by
  unfold unitsOf
  dsimp only
  split
  · exact h
  · rw [Nat.shiftLeft_eq]
    exact mul_ne_zero (Nat.add_pos_right _ (by decide)).ne' (by positivity)

-- The exponent is a variable wherever a power of it is compared, since the power itself is huge.
theorem exactDecimal_eq (m : Nat) : exactDecimal m = unitsOf m * 5 ^ unitExponent := by
  unfold exactDecimal
  generalize unitExponent = u
  rfl

theorem readsBack_exactDecimal {m : Nat} (h0 : m ≠ 0) (h : m < infinity) :
    readsBack m 0 (exactDecimal m) = true := by
  have hne : exactDecimal m ≠ 0 := by
    rw [exactDecimal_eq]
    generalize unitExponent = u
    exact mul_ne_zero (unitsOf_ne_zero h0) (by positivity)
  rw [readsBack_iff, Nat.cast_zero, zero_sub, magnitude_ofDecimal false hne, exactDecimal_eq]
  exact decimalMagnitude_exact h

theorem readsBack_of_neighbour? {m dropped n : Nat} (h : neighbour? m dropped = some n) :
    readsBack m dropped n = true := by
  unfold neighbour? at h
  exact readsBack_of_nearerNeighbour? h

theorem firstHit_induction {hit? : Nat → Option Nat} {otherwise : Nat × Nat}
    {P : Nat × Nat → Prop} (hhit : ∀ n dropped, hit? dropped = some n → P (n, dropped))
    (hotherwise : P otherwise) (grids : Nat) : P (firstHit hit? otherwise grids) := by
  induction grids with
  | zero => exact hotherwise
  | succ dropped ih =>
    rw [firstHit]
    split
    · rename_i n hn
      exact hhit n dropped hn
    · exact ih

theorem ne_zero_of_readsBack {m n scale : Nat} (h0 : m ≠ 0) (h : readsBack m scale n = true) :
    n ≠ 0 := by
  rintro rfl
  rw [readsBack_iff] at h
  exact h0 (h.symm.trans (by simp [ofDecimal]))

end Binary64

/-- The digits without the zeros at their end. -/
theorem exists_stripped_zeros (ds : List Char) :
    ∃ k, ds = (ds.reverse.dropWhile (· == '0')).reverse ++ List.replicate k '0' := by
  refine ⟨(ds.reverse.takeWhile (· == '0')).length, ?_⟩
  have hzeros : ds.reverse.takeWhile (· == '0') =
      List.replicate (ds.reverse.takeWhile (· == '0')).length '0' := by
    refine List.eq_replicate_of_mem fun c hc => ?_
    simpa using List.mem_takeWhile_imp hc
  have hsplit := List.takeWhile_append_dropWhile (p := (· == '0')) (l := ds.reverse)
  conv_lhs => rw [← List.reverse_reverse ds, ← hsplit, List.reverse_append, hzeros]
  rw [List.reverse_replicate]

namespace Binary64

/-- Without the zeros at its end a decimal is nearest to the same double. -/
theorem nearest_decimalText (negative : Bool) (n scale : Nat) :
    (decimalText n scale).nearest negative =
      ofDecimal negative n ((scale : Int) - unitExponent) := by
  obtain ⟨k, hk⟩ := exists_stripped_zeros (Nat.toDigits 10 n)
  rw [decimalText, DecimalText.nearest]
  generalize ((Nat.toDigits 10 n).reverse.dropWhile (· == '0')).reverse = stripped at hk ⊢
  have hdigits : n = natOfDigits stripped * 10 ^ k := by
    have hval := congrArg natOfDigits hk
    rw [natOfDigits_toDigits, natOfDigits_append, natOfDigits_replicate_zero,
      List.length_replicate, add_zero] at hval
    exact hval
  have hscale : ((Nat.toDigits 10 n).length : Int) - 1 + scale - unitExponent + 1 -
      stripped.length - k = (scale : Int) - unitExponent := by
    have hlength := congrArg List.length hk
    rw [List.length_append, List.length_replicate] at hlength
    rw [hlength, Nat.cast_add]
    ring
  rw [← ofDecimal_mul_pow _ _ k, ← hdigits, hscale]

theorem numeral_decimalText {n : Nat} (scale : Nat) (hn : n ≠ 0) :
    (decimalText n scale).Numeral := by
  obtain ⟨k, hk⟩ := exists_stripped_zeros (Nat.toDigits 10 n)
  refine ⟨fun hnil => ?_, ?_⟩
  · rw [decimalText] at hnil
    dsimp only at hnil
    have hzero := congrArg natOfDigits hk
    rw [hnil, List.nil_append, natOfDigits_toDigits, natOfDigits_replicate_zero] at hzero
    exact hn hzero
  · have hall := all_isDigit_toDigits n
    rw [hk, List.all_append, Bool.and_eq_true] at hall
    exact hall.1

theorem readsBack_shortest {m : Nat} (h0 : m ≠ 0) (hm : m < infinity) :
    readsBack m (shortest m).2 (shortest m).1 = true := by
  rw [shortest]
  refine firstHit_induction (P := fun decimal => readsBack m decimal.2 decimal.1 = true)
    (fun n dropped h => ?_) ?_ _
  · dsimp only
    exact readsBack_of_neighbour? h
  · dsimp only
    exact readsBack_exactDecimal h0 hm

theorem numeral_shortestText {m : Nat} (h0 : m ≠ 0) (hm : m < infinity) :
    (shortestText m).Numeral :=
  numeral_decimalText _ (ne_zero_of_readsBack h0 (readsBack_shortest h0 hm))

/-- The shortest decimal of a magnitude is nearest to it among all doubles. -/
theorem nearest_shortestText (negative : Bool) {m : Nat} (h0 : m ≠ 0) (hm : m < infinity)
    (hlt : m < signBit) : (shortestText m).nearest negative = ⟨negative, m, hlt⟩ := by
  have hread := readsBack_shortest h0 hm
  have hn := ne_zero_of_readsBack h0 hread
  rw [readsBack_iff, magnitude_ofDecimal _ hn] at hread
  rw [shortestText, nearest_decimalText]
  exact Binary64.ext (negative_ofDecimal ..) ((magnitude_ofDecimal _ hn _).trans hread)

end Binary64

end LedgerSchema
