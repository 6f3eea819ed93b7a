import Mathlib
import LedgerSchema.Proofs.Instant.Text

/-!
The instants that are read. A text has an offset of whole minutes, so a leap second still ends its
minute in universal time, and the offset moves an instant by less than a day, which can take it out
of the years of four digits. A number of milliseconds can lie far outside of them.
-/

set_option autoImplicit false

namespace LedgerSchema

theorem year_bounds_iff {n low high : Int} : low ≤ yearOfDay n ∧ yearOfDay n ≤ high ↔
    daysBeforeYear low ≤ n ∧ n < daysBeforeYear (high + 1) := by
  obtain ⟨hlow, hhigh⟩ := yearOfDay_spec n
  unfold daysBeforeYear at *
  constructor
  · intro h
    omega
  · intro h
    omega

namespace CivilDate

theorem dayNumber_bounds {d : CivilDate} (h : d.Valid) :
    daysBeforeYear d.year ≤ d.dayNumber ∧ d.dayNumber < daysBeforeYear (d.year + 1) := by
  obtain ⟨-, hday, len, hlen, hle⟩ := h
  obtain ⟨hindex, hget⟩ := List.getElem?_eq_some_iff.1 hlen
  have htotal := sum_monthLengths d.year
  have hmonth := List.sum_take_succ (monthLengths d.year) (d.month - 1) hindex
  have hrest := List.sum_take_add_sum_drop (monthLengths d.year) (d.month - 1 + 1)
  rw [hget] at hmonth
  have hnumber : d.dayNumber = daysBeforeYear d.year +
      ((monthLengths d.year).take (d.month - 1)).sum + (d.day - 1 : Nat) := rfl
  omega

end CivilDate

namespace Instant

/-- Fewer than two seconds of nanoseconds, a leap second only at the end of a minute. -/
structure Regular (t : Instant) : Prop where
  nanos_lt : t.nanos < 2000000000
  leap : 1000000000 ≤ t.nanos → t.seconds % 60 = 59

/-- In a year of universal time that is written with four digits and no sign. -/
def InFourDigitYear (t : Instant) : Prop := 0 ≤ t.date.year ∧ t.date.year ≤ 9999

instance (t : Instant) : Decidable t.InFourDigitYear :=
  inferInstanceAs (Decidable (0 ≤ t.date.year ∧ t.date.year ≤ 9999))

def toMillis (t : Instant) : Instant := { t with nanos := t.nanos / 1000000 * 1000000 }

def firstSecond : Int := -62167219200

def endSecond : Int := 253402300800

theorem inFourDigitYear_iff {t : Instant} :
    t.InFourDigitYear ↔ firstSecond ≤ t.seconds ∧ t.seconds < endSecond := by
  have hyear : t.date.year = yearOfDay (t.seconds / 86400 + epochDay) :=
    CivilDate.year_ofDayNumber _
  rw [InFourDigitYear, hyear, year_bounds_iff]
  unfold daysBeforeYear epochDay firstSecond endSecond
  constructor
  · intro h
    omega
  · intro h
    omega

namespace Regular

variable {t : Instant}

theorem shownSecond_eq (t : Instant) :
    t.shownSecond = (t.seconds % 60).toNat + t.nanos / 1000000000 := by
  unfold shownSecond
  omega

theorem legible_iff (h : t.Regular) : t.Legible ↔ t.InFourDigitYear := by
  constructor
  · intro hlegible
    exact hlegible.year
  · intro hyear
    obtain ⟨hnanos, hleap⟩ := h
    refine ⟨hyear, ?_⟩
    rw [shownSecond_eq]
    omega

/-- The text says all of the instant but what is less than a millisecond. -/
theorem cut_eq (h : t.Regular) : t.cut = t.toMillis := by
  obtain ⟨hnanos, hleap⟩ := h
  rw [cut, toMillis, shownSecond_eq, Instant.mk.injEq]
  constructor
  · split <;> omega
  · split <;> omega

end Regular

/-! What is read from a text, part by part. -/

theorem lt_of_fixedDigits? {count n : Nat} {s after : List Char}
    (h : fixedDigits? count s = some (n, after)) : n < 10 ^ count := by
  unfold fixedDigits? at h
  dsimp only at h
  split at h
  · rename_i hdigits
    obtain ⟨hlength, hall⟩ := hdigits
    have hlt : natOfDigits (s.take count) < 10 ^ (s.take count).length := natOfDigits_lt hall
    rw [hlength] at hlt
    rwa [← (Prod.mk.inj (Option.some.inj h)).1]
  · cases h

theorem valid_of_date? {d : CivilDate} {s after : List Char} (h : date? s = some (d, after)) :
    d.Valid ∧ 0 ≤ d.year ∧ d.year ≤ 9999 := by
  obtain ⟨year, s₁, s₂, s₃, s₄, hyear, -, -, -, -, heq, hvalid⟩ := exists_of_date? h
  have hlt : year < 10 ^ 4 := lt_of_fixedDigits? hyear
  refine ⟨hvalid, ?_⟩
  rw [heq]
  omega

/-- Digits of a fraction, cut or filled with zeros to nanoseconds. -/
theorem natOfDigits_fraction_lt {ds : List Char} (h : ds.all Char.isDigit = true) :
    natOfDigits (ds.take 9 ++ List.replicate (9 - (ds.take 9).length) '0') < 1000000000 := by
  have hall :
      (ds.take 9 ++ List.replicate (9 - (ds.take 9).length) '0').all Char.isDigit = true := by
    rw [List.all_append, Bool.and_eq_true, List.all_replicate]
    constructor
    · rw [List.all_eq_true] at h ⊢
      intro c hc
      exact h c (List.mem_of_mem_take hc)
    · simp
  have hlength : (ds.take 9 ++ List.replicate (9 - (ds.take 9).length) '0').length = 9 := by
    rw [List.length_append, List.length_replicate, List.length_take]
    omega
  have hlt := natOfDigits_lt hall
  rwa [hlength] at hlt

theorem Fraction.lt {fraction : Nat} {s after : List Char} (h : Fraction s fraction after) :
    fraction < 1000000000 := by
  cases h with
  | absent => decide
  | digits r => exact natOfDigits_fraction_lt List.all_takeWhile

theorem bounds_of_timeOfDay? {second nanos : Nat} {s after : List Char}
    (h : timeOfDay? s = some ((second, nanos), after)) :
    second < 86400 ∧ nanos < 2000000000 ∧ (1000000000 ≤ nanos → second % 60 = 59) := by
  obtain ⟨hour, minute, shown, fraction, _, _, _, _, _, -, -, -, -, -, hfraction, hrange, hsecond,
    hnanos⟩ := exists_of_timeOfDay? h
  have hlt := hfraction.lt
  by_cases hleap : shown = 60
  · rw [if_pos hleap] at hsecond hnanos
    omega
  · rw [if_neg hleap] at hsecond hnanos
    omega

theorem bounds_of_offset? {offset : Int} {s after : List Char}
    (h : offset? s = some (offset, after)) :
    -86400 < offset ∧ offset < 86400 ∧ offset % 60 = 0 := by
  rcases exists_of_offset? h with ⟨_, -, -, rfl⟩ |
    ⟨sign, -, hours, minutes, _, _, _, -, -, -, -, hhours, hminutes, rfl⟩
  · decide
  · unfold applySign
    split
    · omega
    · omega

/-- What is read from a text: an offset of whole minutes keeps a leap second at the end of a minute,
and moves the instant by less than a day. -/
theorem regular_of_ofText? {s : List Char} {t : Instant} (h : ofText? s = some t) :
    t.Regular ∧ firstSecond - 86400 < t.seconds ∧ t.seconds < endSecond + 86400 := by
  obtain ⟨d, second, offset, _, _, _, hdate, -, htime, hoffset, hseconds⟩ := exists_of_ofText? h
  obtain ⟨hvalid, hfirst, hlast⟩ := valid_of_date? hdate
  obtain ⟨hsecond, hnanos, hleap⟩ := bounds_of_timeOfDay? htime
  have hday := CivilDate.dayNumber_bounds hvalid
  have hshift := bounds_of_offset? hoffset
  unfold daysBeforeYear at hday
  unfold epochDay at hseconds
  unfold firstSecond endSecond
  refine ⟨⟨hnanos, ?_⟩, ?_, ?_⟩
  · intro hlate
    have hend := hleap hlate
    omega
  · omega
  · omega

theorem regular_of_ofMillis? {ms : Int} {t : Instant} (h : ofMillis? ms = some t) :
    t.Regular ∧ t.seconds = ms / 1000 := by
  unfold ofMillis? at h
  split at h
  · obtain rfl := Option.some.inj h
    refine ⟨⟨?_, ?_⟩, rfl⟩
    · dsimp only
      omega
    · intro hleap
      dsimp only at hleap
      omega
  · cases h

end Instant

end LedgerSchema
