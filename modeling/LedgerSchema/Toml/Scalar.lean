import LedgerSchema.Instant.Text
import LedgerSchema.Toml.Text

/-!
TOML values without parts other than strings: truth values, numbers, dates and times. A reader tells
only what follows such a value.
-/

set_option autoImplicit false

namespace LedgerSchema.Toml

/-- Digits with single underscores between them, and what follows. -/
def digits? (isDigit : Char → Bool) (s : List Char) : Option (List Char × List Char) :=
  let run := s.takeWhile fun c => isDigit c || c == '_'
  let rest := s.dropWhile fun c => isDigit c || c == '_'
  let groups := run.splitOn '_'
  if groups.all (· ≠ []) then some (groups.flatten, rest) else none

def isHexDigit (c : Char) : Bool := (hexValue? c).isSome

def fits (negative : Bool) (radix : Nat) (ds : List Char) : Bool :=
  let n := ds.foldl (fun n c => radix * n + (hexValue? c).getD 0) 0
  (int64OfInt? (applySign negative n)).isSome

def radixInteger? (radix : Nat) (isDigit : Char → Bool) (s : List Char) : Option (List Char) :=
  (digits? isDigit s).bind fun r => if fits false radix r.1 then some r.2 else none

/-- The decimal digits of a whole number; a leading zero stands alone. -/
def decimalDigits? (s : List Char) : Option (List Char × List Char) :=
  match s with
  | '0' :: rest => some (['0'], rest)
  | s => digits? Char.isDigit s

def integer? (s : List Char) : Option (List Char) :=
  match s with
  | '0' :: 'x' :: rest => radixInteger? 16 isHexDigit rest
  | '0' :: 'o' :: rest => radixInteger? 8 (fun c => '0' ≤ c && c ≤ '7') rest
  | '0' :: 'b' :: rest => radixInteger? 2 (fun c => c == '0' || c == '1') rest
  | s =>
    let (negative, s) := splitSign s
    (decimalDigits? s).bind fun r => if fits negative 10 r.1 then some r.2 else none

def exponent? : List Char → Option (Int × List Char)
  | c :: rest =>
    if c == 'e' || c == 'E' then
      let (negative, rest) := splitSign rest
      (digits? Char.isDigit rest).map fun r => (applySign negative (natOfDigits r.1), r.2)
    else none
  | [] => none

/-- A number with a fraction or an exponent; a positive one has to be in the range of doubles. -/
def float? (s : List Char) : Option (List Char) := do
  let (negative, s) := splitSign s
  match s with
  | 'i' :: 'n' :: 'f' :: rest | 'n' :: 'a' :: 'n' :: rest => some rest
  | s =>
    let (whole, s) ← decimalDigits? s
    let (fraction, e, rest) ← match s with
      | '.' :: s =>
        match digits? Char.isDigit s with
        | none => none
        | some (fraction, s) =>
          match exponent? s with
          | some (e, rest) => some (fraction, e, rest)
          | none => some (fraction, 0, s)
      | s => (exponent? s).map fun r => ([], r.1, r.2)
    let x := Binary64.ofDecimal negative (natOfDigits (whole ++ fraction)) (e - fraction.length)
    if x.isFinite || negative then some rest else none

def time? (s : List Char) : Option (List Char) := (Instant.timeOfDay? s).map (·.2)

def offset? (s : List Char) : Option (List Char) :=
  if s.head? == some '\u2212' then none else (Instant.offset? s).map (·.2)

def dateTime? (s : List Char) : Option (List Char) :=
  match Instant.date? s with
  | none => time? s
  | some (_, rest) =>
    match rest with
    | c :: after =>
      if c == 'T' || c == 't' || c == ' ' then
        match time? after with
        | some rest => some ((offset? rest).getD rest)
        | none => some rest
      else some rest
    | [] => some []

def bool? : List Char → Option (List Char)
  | 't' :: 'r' :: 'u' :: 'e' :: rest => some rest
  | 'f' :: 'a' :: 'l' :: 's' :: 'e' :: rest => some rest
  | _ => none

def scalar? (s : List Char) : Option (List Char) :=
  (bool? s).or ((dateTime? s).or ((float? s).or (integer? s)))

end LedgerSchema.Toml
