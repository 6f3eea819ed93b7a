import Mathlib
import LedgerSchema.Number.Binary64

/-!
Rounding to the nearest double. The result depends on the value of a ratio and not on how it is
written, a magnitude is nearest to itself, and a decimal can be written with more zeros and a
smaller scale.
-/

set_option autoImplicit false

namespace LedgerSchema.Binary64

theorem divNearest_mul (n d : Nat) {k : Nat} (hk : 0 < k) :
    divNearest (n * k) (d * k) = divNearest n d := by
  have hq : n * k / (d * k) = n / d := Nat.mul_div_mul_right n d hk
  have hr : n * k % (d * k) = n % d * k := Nat.mul_mod_mul_right k n d
  have hlow : 2 * (n % d * k) < d * k ↔ 2 * (n % d) < d := by
    rw [← mul_assoc]
    exact Nat.mul_lt_mul_right hk
  have hhigh : d * k < 2 * (n % d * k) ↔ d < 2 * (n % d) := by
    rw [← mul_assoc]
    exact Nat.mul_lt_mul_right hk
  simp only [divNearest, hq, hr, hlow, hhigh]

theorem nearestMagnitude_mul (n d : Nat) {k : Nat} (hk : 0 < k) :
    nearestMagnitude (n * k) (d * k) = nearestMagnitude n d := by
  have hshift (s : Nat) : (d * k) <<< s = d <<< s * k := by
    rw [Nat.shiftLeft_eq, Nat.shiftLeft_eq, mul_right_comm]
  simp only [nearestMagnitude, Nat.mul_div_mul_right n d hk, hshift, divNearest_mul _ _ hk]

theorem nearestMagnitude_eq_of_ratio {n d n' d' : Nat} (hd : 0 < d) (hd' : 0 < d')
    (h : n * d' = n' * d) : nearestMagnitude n d = nearestMagnitude n' d' := by
  rw [← nearestMagnitude_mul n d hd', ← nearestMagnitude_mul n' d' hd, h, mul_comm d d']

theorem divNearest_one (n : Nat) : divNearest n 1 = n := by
  simp [divNearest, Nat.mod_one]

theorem divNearest_mul_self (n : Nat) {d : Nat} (hd : 0 < d) : divNearest (n * d) d = n := by
  have h := divNearest_mul n 1 hd
  rwa [one_mul, divNearest_one] at h

theorem log2_mul_two_pow {n : Nat} (hn : n ≠ 0) (k : Nat) : (n * 2 ^ k).log2 = n.log2 + k := by
  rw [Nat.log2_eq_iff (by positivity), pow_add, pow_add, pow_add]
  have hle : 2 ^ n.log2 ≤ n := Nat.log2_self_le hn
  have hlt : n < 2 ^ (n.log2 + 1) := Nat.lt_log2_self
  rw [pow_add] at hlt
  constructor
  · exact Nat.mul_le_mul_right _ hle
  · calc n * 2 ^ k < 2 ^ n.log2 * 2 ^ 1 * 2 ^ k := Nat.mul_lt_mul_of_pos_right hlt (by positivity)
      _ = 2 ^ n.log2 * 2 ^ k * 2 ^ 1 := by ring

theorem binade_eq : binade = 2 ^ 52 := by norm_num [binade]

theorem log2_fraction {fraction : Nat} (h : fraction < binade) :
    (fraction + binade).log2 = 52 := by
  rw [binade_eq] at *
  rw [Nat.log2_eq_iff (by omega)]
  omega

/-- A finite magnitude is what its own number of units rounds to. -/
theorem nearestMagnitude_unitsOf {m : Nat} (h : m < infinity) :
    nearestMagnitude (unitsOf m) 1 = m := by
  have hmin (k : Nat) (hk : k = m) : min infinity k = m := by
    rw [hk]
    exact Nat.min_eq_right h.le
  unfold unitsOf
  by_cases hfield : m / binade = 0
  · -- Below the second binade a magnitude counts units and no bit is dropped.
    have hlog : m.log2 ≤ 52 := by
      by_cases h0 : m = 0
      · simp [h0]
      · have hlt : m < 2 ^ 52 := by
          rw [← binade_eq]
          exact (Nat.div_eq_zero_iff.1 hfield).resolve_left (by decide)
        exact ((Nat.log2_lt h0).2 hlt).le
    rw [if_pos hfield, nearestMagnitude, Nat.div_one, Nat.sub_eq_zero_of_le hlog]
    exact hmin _ (by simp [divNearest_one])
  · have hlog : ((m % binade + binade) <<< (m / binade - 1)).log2 - 52 = m / binade - 1 := by
      rw [Nat.shiftLeft_eq, log2_mul_two_pow (by norm_num [binade]),
        log2_fraction (Nat.mod_lt _ (by decide))]
      omega
    rw [if_neg hfield, nearestMagnitude, Nat.div_one, hlog]
    refine hmin _ ?_
    rw [Nat.shiftLeft_eq, Nat.shiftLeft_eq, one_mul, divNearest_mul_self _ (by positivity)]
    have hpred : (m / binade - 1) * binade + binade = binade * (m / binade) := by
      rw [← Nat.succ_mul, Nat.succ_eq_add_one, Nat.sub_add_cancel (Nat.pos_of_ne_zero hfield),
        mul_comm]
    calc (m / binade - 1) * binade + (m % binade + binade)
        = (m / binade - 1) * binade + binade + m % binade := by
          rw [add_comm (m % binade), add_assoc]
      _ = m := by rw [hpred, Nat.div_add_mod]

/-- Ratios far above the finite range round to infinity. -/
theorem nearestMagnitude_of_large {n k : Nat} (hk : 2099 ≤ k) (h : 2 ^ k ≤ n) :
    nearestMagnitude n 1 = infinity := by
  have hn : n ≠ 0 := ((Nat.two_pow_pos k).trans_le h).ne'
  have hlog : k ≤ n.log2 := (Nat.le_log2 hn).2 h
  have hshift : infinity ≤ (n.log2 - 52) * binade := by
    calc infinity = 2047 * binade := by decide
      _ ≤ (n.log2 - 52) * binade := Nat.mul_le_mul_right _ (by omega)
  rw [nearestMagnitude, Nat.div_one]
  exact Nat.min_eq_left (hshift.trans (Nat.le_add_right _ _))

/-- Less than half a unit rounds to zero. -/
theorem nearestMagnitude_of_small {n d : Nat} (h : 2 * n < d) : nearestMagnitude n d = 0 := by
  have hdiv : n / d = 0 := Nat.div_eq_of_lt (by omega)
  have hmod : n % d = n := Nat.mod_eq_of_lt (by omega)
  simp [nearestMagnitude, hdiv, divNearest, hmod, h]

/-- The magnitude nearest to `digits * 10 ^ scale`, by one division at any scale. -/
def decimalMagnitude (digits : Nat) (scale : Int) : Nat :=
  nearestMagnitude (digits * 10 ^ scale.toNat * 2 ^ unitExponent) (10 ^ (-scale).toNat)

theorem eight_pow_le_ten_pow (e : Nat) : 2 ^ (3 * e) ≤ 10 ^ e := by
  rw [pow_mul]
  exact Nat.pow_le_pow_left (by decide) e

theorem decimalMagnitude_of_large {digits e : Nat} (hd : digits ≠ 0) (he : 400 ≤ e) :
    decimalMagnitude digits e = infinity := by
  have hscale : (-(e : Int)).toNat = 0 := by omega
  rw [decimalMagnitude, hscale, pow_zero, Int.toNat_natCast]
  have hk : 2099 ≤ 3 * e + unitExponent := by
    change 2099 ≤ 3 * e + 1074
    omega
  refine nearestMagnitude_of_large hk ?_
  calc 2 ^ (3 * e + unitExponent) = 2 ^ (3 * e) * 2 ^ unitExponent := pow_add _ _ _
    _ ≤ digits * 10 ^ e * 2 ^ unitExponent := by
      refine Nat.mul_le_mul_right _ ?_
      exact (eight_pow_le_ten_pow e).trans (Nat.le_mul_of_pos_left _ (Nat.pos_of_ne_zero hd))

theorem decimalMagnitude_of_small {digits e : Nat} (he : digits.log2 + 1200 ≤ 3 * e) :
    decimalMagnitude digits (Int.negSucc e) = 0 := by
  have hscale : (-Int.negSucc e).toNat = e + 1 := by omega
  rw [decimalMagnitude, hscale, Int.toNat_negSucc, pow_zero, mul_one]
  have hexp : digits.log2 + 1 + unitExponent + 1 ≤ 3 * (e + 1) := by
    change digits.log2 + 1 + 1074 + 1 ≤ 3 * (e + 1)
    omega
  refine nearestMagnitude_of_small ?_
  calc 2 * (digits * 2 ^ unitExponent)
      < 2 * (2 ^ (digits.log2 + 1) * 2 ^ unitExponent) :=
        Nat.mul_lt_mul_of_pos_left (Nat.mul_lt_mul_of_pos_right Nat.lt_log2_self
          (Nat.two_pow_pos unitExponent)) two_pos
    _ = 2 ^ (digits.log2 + 1 + unitExponent + 1) := by rw [← pow_add, ← pow_succ']
    _ ≤ 2 ^ (3 * (e + 1)) := Nat.pow_le_pow_right two_pos hexp
    _ ≤ 10 ^ (e + 1) := eight_pow_le_ten_pow _

theorem negative_ofDecimal (negative : Bool) (digits : Nat) (scale : Int) :
    (ofDecimal negative digits scale).negative = negative := by
  unfold ofDecimal
  split
  · rfl
  · split <;> split <;> rfl

/-- The limits on the scale only save work. -/
theorem magnitude_ofDecimal (negative : Bool) {digits : Nat} (hd : digits ≠ 0) (scale : Int) :
    (ofDecimal negative digits scale).magnitude = decimalMagnitude digits scale := by
  unfold ofDecimal
  rw [if_neg hd]
  split
  · rename_i e
    split
    · rename_i he
      exact (decimalMagnitude_of_large hd he).symm
    · have hscale : (-Int.ofNat e).toNat = 0 := by simp
      rw [decimalMagnitude, hscale, pow_zero, Int.ofNat_eq_natCast, Int.toNat_natCast,
        ← Nat.shiftLeft_eq]
      rfl
  · rename_i e
    split
    · rename_i he
      exact (decimalMagnitude_of_small he).symm
    · have hscale : (-Int.negSucc e).toNat = e + 1 := by omega
      rw [decimalMagnitude, hscale, Int.toNat_negSucc, pow_zero, mul_one, ← Nat.shiftLeft_eq]
      rfl

theorem decimalMagnitude_mul_pow (digits k : Nat) (scale : Int) :
    decimalMagnitude (digits * 10 ^ k) (scale - k) = decimalMagnitude digits scale := by
  unfold decimalMagnitude
  generalize unitExponent = u
  refine nearestMagnitude_eq_of_ratio (by positivity) (by positivity) ?_
  have hexp : k + (scale - k).toNat + (-scale).toNat = scale.toNat + (-(scale - k)).toNat := by
    omega
  calc digits * 10 ^ k * 10 ^ (scale - k).toNat * 2 ^ u * 10 ^ (-scale).toNat
      = digits * 10 ^ (k + (scale - k).toNat + (-scale).toNat) * 2 ^ u := by ring
    _ = digits * 10 ^ (scale.toNat + (-(scale - k)).toNat) * 2 ^ u := by rw [hexp]
    _ = digits * 10 ^ scale.toNat * 2 ^ u * 10 ^ (-(scale - k)).toNat := by ring

theorem ofDecimal_mul_pow (negative : Bool) (digits k : Nat) (scale : Int) :
    ofDecimal negative (digits * 10 ^ k) (scale - k) = ofDecimal negative digits scale := by
  by_cases hd : digits = 0
  · simp [hd, ofDecimal]
  · have hdk : digits * 10 ^ k ≠ 0 := mul_ne_zero hd (by positivity)
    rw [Binary64.mk.injEq, negative_ofDecimal, negative_ofDecimal, magnitude_ofDecimal _ hdk,
      magnitude_ofDecimal _ hd, decimalMagnitude_mul_pow]
    exact ⟨rfl, rfl⟩

/-- A finite magnitude written out in full is read back. -/
theorem decimalMagnitude_exact {m : Nat} (h : m < infinity) :
    decimalMagnitude (unitsOf m * 5 ^ unitExponent) (-unitExponent) = m := by
  unfold decimalMagnitude
  generalize unitExponent = u
  have hpos : (-(u : Int)).toNat = 0 := by omega
  have hneg : (-(-(u : Int))).toNat = u := by omega
  have hten : 5 ^ u * 2 ^ u = 10 ^ u := (mul_pow 5 2 u).symm
  have hmul := nearestMagnitude_mul (unitsOf m) 1 (k := 10 ^ u) (by positivity)
  rw [one_mul] at hmul
  rw [hpos, hneg, pow_zero, mul_one, mul_assoc, hten, hmul, nearestMagnitude_unitsOf h]

end LedgerSchema.Binary64
