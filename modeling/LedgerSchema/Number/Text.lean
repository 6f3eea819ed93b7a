import LedgerSchema.Number.Shortest

/-!
Numbers as text. Whole numbers are read from an optional sign and digits. Doubles are read from an
optional sign and either a word for what is not finite or digits with at most one point and an
optional exponent. Doubles are written with their shortest digits, laid out as a record says.
-/

set_option autoImplicit false

namespace LedgerSchema

def natOfDigits (ds : List Char) : Nat := Nat.ofDigitChars 10 ds 0

def splitSign : List Char → Bool × List Char
  | '-' :: rest => (true, rest)
  | '+' :: rest => (false, rest)
  | s => (false, s)

def applySign (negative : Bool) (n : Nat) : Int := if negative then -(n : Int) else n

/-- An optional sign and at least one digit, with nothing around them. -/
def intOfText? (s : List Char) : Option Int :=
  let (negative, ds) := splitSign s
  if ds ≠ [] && ds.all Char.isDigit then some (applySign negative (natOfDigits ds)) else none

def int64OfInt? (n : Int) : Option Int64 :=
  if Int64.minValue.toInt ≤ n ∧ n ≤ Int64.maxValue.toInt then some (Int64.ofInt n) else none

def int32OfInt? (n : Int) : Option Int32 :=
  if Int32.minValue.toInt ≤ n ∧ n ≤ Int32.maxValue.toInt then some (Int32.ofInt n) else none

/-- An exponent mark, an optional sign and digits; nothing at all is the exponent zero. -/
def exponentOfText? : List Char → Option Int
  | [] => some 0
  | c :: rest => if c == 'e' || c == 'E' then intOfText? rest else none

namespace Binary64

def ofDecimalText? (negative : Bool) (s : List Char) : Option Binary64 :=
  let whole := s.takeWhile Char.isDigit
  let rest := s.dropWhile Char.isDigit
  let (fraction, rest) := match rest with
    | '.' :: r => (r.takeWhile Char.isDigit, r.dropWhile Char.isDigit)
    | r => ([], r)
  if whole ++ fraction = [] then none
  else (exponentOfText? rest).map fun e =>
    ofDecimal negative (natOfDigits (whole ++ fraction)) (e - fraction.length)

/-- Reads a double; the words for infinity and for what is not a number may be in any case. -/
def ofText? (s : List Char) : Option Binary64 :=
  let (negative, rest) := splitSign s
  let word := rest.map Char.toLower
  if word = ['i', 'n', 'f'] ∨ word = ['i', 'n', 'f', 'i', 'n', 'i', 't', 'y'] then
    some (infinite negative)
  else if word = ['n', 'a', 'n'] then some nan
  else ofDecimalText? negative rest

end Binary64

/-- The exponents of the first digit for which a decimal is written with a point and no exponent. -/
structure DecimalLayout where
  lowest : Int
  highest : Int

/-- Positional notation has at least one digit on either side of the point; scientific notation
has a point only before further digits, and its exponent always has a sign. -/
def DecimalText.layOut (layout : DecimalLayout) (t : DecimalText) : List Char :=
  let ds := t.digits
  if layout.lowest ≤ t.exponent ∧ t.exponent ≤ layout.highest then
    match t.exponent with
    | .negSucc below => '0' :: '.' :: (List.replicate below '0' ++ ds)
    | .ofNat above =>
      let whole := ds.take (above + 1)
      let fraction := ds.drop (above + 1)
      whole ++ List.replicate (above + 1 - whole.length) '0' ++
        '.' :: (if fraction = [] then ['0'] else fraction)
  else
    let point := if ds.length ≤ 1 then [] else ['.']
    let sign := if t.exponent < 0 then '-' else '+'
    ds.take 1 ++ point ++ ds.drop 1 ++ 'e' :: sign :: Nat.toDigits 10 t.exponent.natAbs

namespace Binary64

def finiteText (layout : DecimalLayout) (x : Binary64) : List Char :=
  (if x.negative then ['-'] else []) ++
    if x.isZero then ['0', '.', '0'] else (shortestText x.magnitude).layOut layout

def specialText (x : Binary64) : List Char :=
  if x.isNaN then ['N', 'a', 'N']
  else if x.negative then ['-', 'i', 'n', 'f'] else ['i', 'n', 'f']

end Binary64

end LedgerSchema
