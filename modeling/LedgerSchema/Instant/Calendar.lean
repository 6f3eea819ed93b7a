/-!
Dates of the Gregorian calendar, extended to all years, and the number of days from the first of
January of the year zero. The year of a day is estimated from the mean length of a year, which is
off by at most one year.
-/

set_option autoImplicit false

namespace LedgerSchema

structure CivilDate where
  year : Int
  month : Nat
  day : Nat
  deriving DecidableEq

def isLeapYear (year : Int) : Bool :=
  year % 4 == 0 && (year % 100 != 0 || year % 400 == 0)

def monthLengths (year : Int) : List Nat :=
  [31, if isLeapYear year then 29 else 28, 31, 30, 31, 30, 31, 31, 30, 31, 30, 31]

/-- Days from the start of the year zero, itself a leap year, to the start of the given one. -/
def daysBeforeYear (year : Int) : Int :=
  365 * year + (year + 3) / 4 - (year + 99) / 100 + (year + 399) / 400

theorem daysBeforeYear_succ (year : Int) :
    daysBeforeYear (year + 1) = daysBeforeYear year + if isLeapYear year then 366 else 365 := by
  simp only [daysBeforeYear, isLeapYear, Bool.and_eq_true, Bool.or_eq_true, beq_iff_eq, bne_iff_ne]
  split <;> omega

namespace CivilDate

def Valid (d : CivilDate) : Prop :=
  1 ≤ d.month ∧ 1 ≤ d.day ∧ ∃ n ∈ (monthLengths d.year)[d.month - 1]?, d.day ≤ n

instance (d : CivilDate) : Decidable d.Valid :=
  inferInstanceAs (Decidable (_ ∧ _ ∧ ∃ n ∈ (monthLengths d.year)[d.month - 1]?, d.day ≤ n))

def dayNumber (d : CivilDate) : Int :=
  let before : Nat := ((monthLengths d.year).take (d.month - 1)).foldr (· + ·) 0
  daysBeforeYear d.year + before + (d.day - 1 : Nat)

end CivilDate

def yearOfDay (n : Int) : Int :=
  let guess := n * 400 / 146097
  if n < daysBeforeYear guess then guess - 1
  else if daysBeforeYear (guess + 1) ≤ n then guess + 1
  else guess

/-- How many whole months of the given lengths pass before a day, and the days left of the next. -/
def splitMonths : List Nat → Nat → Nat × Nat
  | [], n => (0, n)
  | len :: rest, n =>
    if n < len then (0, n)
    else
      let (months, left) := splitMonths rest (n - len)
      (months + 1, left)

def CivilDate.ofDayNumber (n : Int) : CivilDate :=
  let year := yearOfDay n
  let (months, days) := splitMonths (monthLengths year) (n - daysBeforeYear year).toNat
  ⟨year, months + 1, days + 1⟩

end LedgerSchema
