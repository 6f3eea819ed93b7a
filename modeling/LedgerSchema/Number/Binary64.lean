/-!
Double precision numbers as sign and magnitude. A magnitude is the lower 63 bits of the word: an
exponent field above a fraction of 52 bits. Magnitudes are ordered as the numbers they stand for,
and every finite one is a whole number of units of `2 ^ -1074`, so rounding a ratio to the nearest
number is arithmetic on natural numbers.
-/

set_option autoImplicit false

namespace LedgerSchema

abbrev Binary64.signBit : Nat := 0x8000000000000000

structure Binary64 where
  negative : Bool
  magnitude : Nat
  magnitude_lt : magnitude < Binary64.signBit
  deriving DecidableEq

namespace Binary64

/-- The magnitude of infinity; the magnitudes above it are not numbers. -/
def infinity : Nat := 0x7FF0000000000000

/-- How many magnitudes share an exponent field. -/
abbrev binade : Nat := 0x10000000000000

def isNaN (x : Binary64) : Bool := infinity < x.magnitude

def isFinite (x : Binary64) : Bool := x.magnitude < infinity

def isZero (x : Binary64) : Bool := x.magnitude == 0

/-- The unit that all finite numbers are multiples of is `2 ^ -unitExponent`. -/
abbrev unitExponent : Nat := 1074

/-- How many units a finite magnitude is: fraction and hidden bit, scaled by the exponent field. -/
def unitsOf (magnitude : Nat) : Nat :=
  let field := magnitude / binade
  if field = 0 then magnitude else (magnitude % binade + binade) <<< (field - 1)

/-- The quotient rounded to the nearest natural number, a half to the even one. -/
def divNearest (n d : Nat) : Nat :=
  let q := n / d
  let r := n % d
  if 2 * r < d then q
  else if d < 2 * r then q + 1
  else if q % 2 = 0 then q else q + 1

/-- The magnitude nearest to `n / d` units; what lies above the finite range is infinity. -/
def nearestMagnitude (n d : Nat) : Nat :=
  let shift := (n / d).log2 - 52
  min infinity (shift * binade + divNearest n (d <<< shift))

theorem nearestMagnitude_le (n d : Nat) : nearestMagnitude n d ≤ infinity := Nat.min_le_left _ _

theorem nearestMagnitude_lt (n d : Nat) : nearestMagnitude n d < signBit :=
  Nat.lt_of_le_of_lt (nearestMagnitude_le n d) (by decide)

def ofUnits (negative : Bool) (n d : Nat) : Binary64 :=
  ⟨negative, nearestMagnitude n d, nearestMagnitude_lt n d⟩

def zero : Binary64 := ⟨false, 0, by decide⟩

def negZero : Binary64 := ⟨true, 0, by decide⟩

def nan : Binary64 := ⟨false, infinity + binade / 2, by decide⟩

def infinite (negative : Bool) : Binary64 := ⟨negative, infinity, by decide⟩

def ofInt (n : Int) : Binary64 := ofUnits (decide (n < 0)) (n.natAbs <<< unitExponent) 1

/-- The number nearest to `digits * 10 ^ scale`. Scales far outside the range of the format are
settled without computing the power. -/
def ofDecimal (negative : Bool) (digits : Nat) (scale : Int) : Binary64 :=
  if digits = 0 then ⟨negative, 0, by decide⟩
  else match scale with
    | .ofNat e =>
      if 400 ≤ e then infinite negative
      else ofUnits negative ((digits * Nat.pow 10 e) <<< unitExponent) 1
    | .negSucc e =>
      if digits.log2 + 1200 ≤ 3 * e then ⟨negative, 0, by decide⟩
      else ofUnits negative (digits <<< unitExponent) (Nat.pow 10 (e + 1))

def ofBits (word : UInt64) : Binary64 :=
  ⟨decide (signBit ≤ word.toNat), word.toNat % signBit, Nat.mod_lt _ (by decide)⟩

def toBits (x : Binary64) : UInt64 :=
  .ofNat ((if x.negative then signBit else 0) + x.magnitude)

/-- Numeric equality: nothing equals what is not a number, and the two zeros are equal. -/
def numEq (x y : Binary64) : Bool :=
  !x.isNaN && !y.isNaN && (decide (x = y) || (x.isZero && y.isZero))

theorem numEq_comm (x y : Binary64) : x.numEq y = y.numEq x := by
  simp only [numEq, eq_comm (a := x) (b := y), Bool.and_comm x.isZero, Bool.and_comm (!x.isNaN)]

end Binary64

end LedgerSchema
