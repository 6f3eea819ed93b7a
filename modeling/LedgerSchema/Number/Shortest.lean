import LedgerSchema.Number.Binary64

/-!
The shortest decimal that reads back as a given double: of the decimals with the fewest digits, the
one nearest to it, and of two equally near ones the even one. Every finite double is a whole number
of `10 ^ -1074`, so the decimals of a given length next to it come from one division.
-/

set_option autoImplicit false

namespace LedgerSchema

/-- Digits of a positive number, most significant first, and the exponent of the first one. -/
structure DecimalText where
  digits : List Char
  exponent : Int
  deriving DecidableEq

namespace Binary64

/-- The finite magnitude in units of `10 ^ -1074`. -/
def exactDecimal (magnitude : Nat) : Nat := unitsOf magnitude * Nat.pow 5 unitExponent

/-- The nearer of the neighbours `low` and `low + 1` that read back, given what is above `low` and
the grid's unit; of two equally near ones the even one. -/
def nearerNeighbour? (readsBack : Nat → Bool) (low rest unit : Nat) : Option Nat :=
  match readsBack low, readsBack (low + 1) with
  | true, true =>
    if 2 * rest < unit then some low
    else if unit < 2 * rest then some (low + 1)
    else if low % 2 = 0 then some low else some (low + 1)
  | true, false => some low
  | false, true => some (low + 1)
  | false, false => none

def readsBack (magnitude dropped n : Nat) : Bool :=
  (ofDecimal false n ((dropped : Int) - unitExponent)).magnitude == magnitude

/-- The decimal of a given grid nearest to the exact value among its two neighbours that read back
as the magnitude; the grid's unit is `10 ^ (dropped - 1074)`. -/
def neighbour? (magnitude dropped : Nat) : Option Nat :=
  nearerNeighbour? (readsBack magnitude dropped) (exactDecimal magnitude / Nat.pow 10 dropped)
    (exactDecimal magnitude % Nat.pow 10 dropped) (Nat.pow 10 dropped)

/-- The first hit on the grids from the coarsest one down, with the grid it is on. -/
def firstHit (hit? : Nat → Option Nat) (otherwise : Nat × Nat) : Nat → Nat × Nat
  | 0 => otherwise
  | dropped + 1 =>
    match hit? dropped with
    | some n => (n, dropped)
    | none => firstHit hit? otherwise dropped

/-- The shortest decimal of a finite magnitude other than zero, as `digits * 10 ^ (scale - 1074)`:
the grids leave one digit, two digits and so on, and dropping nothing always hits. -/
def shortest (magnitude : Nat) : Nat × Nat :=
  firstHit (neighbour? magnitude) (exactDecimal magnitude, 0)
    (Nat.toDigits 10 (exactDecimal magnitude)).length

/-- The decimal `n * 10 ^ (scale - 1074)`, without zeros at its end. -/
def decimalText (n scale : Nat) : DecimalText :=
  let ds := Nat.toDigits 10 n
  ⟨(ds.reverse.dropWhile (· == '0')).reverse, (ds.length : Int) - 1 + (scale : Int) - unitExponent⟩

def shortestText (magnitude : Nat) : DecimalText :=
  decimalText (shortest magnitude).1 (shortest magnitude).2

end Binary64

end LedgerSchema
