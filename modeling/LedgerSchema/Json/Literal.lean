import LedgerSchema.Json.Basic
import LedgerSchema.Text.Hex

/-!
JSON texts as they are written: members in their order and with repeats, numbers and strings before
they are given a value. The grammar is the strict one. A text has a node when its strings name whole
characters, its numbers are in the range of doubles, and it is nested no deeper than `maxDepth`.
-/

set_option autoImplicit false

namespace LedgerSchema

/-- A number `digits * 10 ^ scale`; it is integral when written without point and exponent. -/
structure NumberLiteral where
  negative : Bool
  digits : Nat
  scale : Int
  integral : Bool

/-- A string is `none` when its escapes name half of a surrogate pair. -/
inductive JsonLiteral where
  | null
  | bool (b : Bool)
  | number (n : NumberLiteral)
  | string (s : Option String)
  | array (items : List JsonLiteral)
  | object (members : List (Option String × JsonLiteral))

namespace JsonLiteral

def skipSpace (s : List Char) : List Char :=
  s.dropWhile fun c => c == ' ' || c == '\t' || c == '\n' || c == '\r'

def simpleEscape? : Char → Option Char
  | '"' => some '"'
  | '\\' => some '\\'
  | '/' => some '/'
  | 'b' => some '\x08'
  | 'f' => some '\x0c'
  | 'n' => some '\n'
  | 'r' => some '\r'
  | 't' => some '\t'
  | _ => none

def consCode (code : Nat) : Option (List Nat × List Char) → Option (List Nat × List Char) :=
  Option.map fun r => (code :: r.1, r.2)

/-- The codes of the string up to its closing quote, and what follows the quote. An escaped code
may be half of a surrogate pair, any other is a character. -/
def stringCodes? : List Char → Option (List Nat × List Char)
  | [] => none
  | '"' :: rest => some ([], rest)
  | '\\' :: 'u' :: a :: b :: c :: d :: rest =>
    match hexNumber? [a, b, c, d] with
    | some code => consCode code (stringCodes? rest)
    | none => none
  | '\\' :: c :: rest =>
    match simpleEscape? c with
    | some e => consCode e.toNat (stringCodes? rest)
    | none => none
  | c :: rest => if c.toNat < 0x20 then none else consCode c.toNat (stringCodes? rest)

def isHighHalf (code : Nat) : Bool := 0xD800 ≤ code && code < 0xDC00

def isLowHalf (code : Nat) : Bool := 0xDC00 ≤ code && code < 0xE000

/-- The characters that the codes stand for, if the halves of surrogate pairs all meet. -/
def joinCodes : List Nat → Option (List Char)
  | [] => some []
  | [code] => if isHighHalf code || isLowHalf code then none else some [.ofNat code]
  | code :: next :: rest =>
    if isHighHalf code then
      if isLowHalf next then
        (joinCodes rest).map (.ofNat (0x10000 + (code - 0xD800) * 0x400 + (next - 0xDC00)) :: ·)
      else none
    else if isLowHalf code then none
    else (joinCodes (next :: rest)).map (.ofNat code :: ·)

def string? (s : List Char) : Option (Option String × List Char) :=
  (stringCodes? s).map fun r => ((joinCodes r.1).map String.ofList, r.2)

def number? (s : List Char) : Option (NumberLiteral × List Char) := do
  let (negative, s) := match s with
    | '-' :: r => (true, r)
    | r => (false, r)
  let whole := s.takeWhile Char.isDigit
  let s := s.dropWhile Char.isDigit
  if whole = [] || (whole.head? == some '0' && whole.length != 1) then none
  let (fraction, s) ← match s with
    | '.' :: r =>
      let ds := r.takeWhile Char.isDigit
      if ds = [] then none else some (some ds, r.dropWhile Char.isDigit)
    | r => some (none, r)
  let (exponent, s) ← match s with
    | c :: r =>
      if c == 'e' || c == 'E' then
        let (negative, r) := splitSign r
        let ds := r.takeWhile Char.isDigit
        if ds = [] then none
        else some (some (applySign negative (natOfDigits ds)), r.dropWhile Char.isDigit)
      else some (none, c :: r)
    | [] => some (none, [])
  let places := fraction.getD []
  some (⟨negative, natOfDigits (whole ++ places), exponent.getD 0 - places.length,
    fraction.isNone && exponent.isNone⟩, s)

def keyword? (s : List Char) : Option (JsonLiteral × List Char) :=
  match s with
  | 'n' :: 'u' :: 'l' :: 'l' :: r => some (.null, r)
  | 't' :: 'r' :: 'u' :: 'e' :: r => some (.bool true, r)
  | 'f' :: 'a' :: 'l' :: 's' :: 'e' :: r => some (.bool false, r)
  | _ => none

mutual

/-- A value at the start of the text; the fuel bounds how many values and separators follow. -/
def value? : Nat → List Char → Option (JsonLiteral × List Char)
  | 0, _ => none
  | fuel + 1, s =>
    match s with
    | '[' :: r =>
      match skipSpace r with
      | ']' :: r => some (.array [], r)
      | r => (items? fuel r).map fun x => (.array x.1, x.2)
    | '\x7b' :: r =>
      match skipSpace r with
      | '\x7d' :: r => some (.object [], r)
      | r => (members? fuel r).map fun x => (.object x.1, x.2)
    | '"' :: r => (string? r).map fun x => (.string x.1, x.2)
    | c :: _ =>
      if c == '-' || c.isDigit then (number? s).map fun x => (.number x.1, x.2) else keyword? s
    | [] => none

def items? : Nat → List Char → Option (List JsonLiteral × List Char)
  | 0, _ => none
  | fuel + 1, s =>
    match value? fuel s with
    | none => none
    | some (item, r) =>
      match skipSpace r with
      | ']' :: r => some ([item], r)
      | ',' :: r => (items? fuel (skipSpace r)).map fun x => (item :: x.1, x.2)
      | _ => none

def members? : Nat → List Char → Option (List (Option String × JsonLiteral) × List Char)
  | 0, _ => none
  | fuel + 1, s =>
    match s with
    | '"' :: r =>
      match string? r with
      | none => none
      | some (name, r) =>
        match skipSpace r with
        | ':' :: r =>
          match value? fuel (skipSpace r) with
          | none => none
          | some (item, r) =>
            match skipSpace r with
            | '\x7d' :: r => some ([(name, item)], r)
            | ',' :: r =>
              (members? fuel (skipSpace r)).map fun x => ((name, item) :: x.1, x.2)
            | _ => none
        | _ => none
    | _ => none

end

def ofText? (text : String) : Option JsonLiteral :=
  let s := skipSpace text.toList
  match value? (2 * s.length + 1) s with
  | some (v, rest) => if skipSpace rest = [] then some v else none
  | none => none

end JsonLiteral

def Json.maxDepth : Nat := 127

/-- Whole numbers outside of 64 bits and the negative zero are doubles. -/
def NumberLiteral.number? (n : NumberLiteral) : Option JsonNumber :=
  let whole := applySign n.negative n.digits
  if n.integral && decide (Int64.minValue.toInt ≤ whole) && decide (whole < UInt64.size) &&
      !(n.negative && n.digits == 0) then
    some (.int whole)
  else
    let x := Binary64.ofDecimal n.negative n.digits n.scale
    if x.isFinite then some (.double x) else none

namespace JsonLiteral

mutual

/-- The node of a literal when at most `depth` more arrays and objects may be opened. -/
def node? : JsonLiteral → Nat → Option Json
  | .null, _ => some .null
  | .bool b, _ => some (.bool b)
  | .number n, _ => n.number?.map .number
  | .string s, _ => s.map .string
  | .array items, depth =>
    match depth with
    | 0 => none
    | depth + 1 => (itemNodes? items depth).map .array
  | .object members, depth =>
    match depth with
    | 0 => none
    | depth + 1 => (memberNodes? members depth).map fun ms => .object (mapOfList ms)

def itemNodes? : List JsonLiteral → Nat → Option (List Json)
  | [], _ => some []
  | item :: rest, depth => do
    let node ← node? item depth
    let nodes ← itemNodes? rest depth
    some (node :: nodes)

def memberNodes? : List (Option String × JsonLiteral) → Nat → Option (List (String × Json))
  | [], _ => some []
  | (name, item) :: rest, depth => do
    let name ← name
    let node ← node? item depth
    let nodes ← memberNodes? rest depth
    some ((name, node) :: nodes)

end

end JsonLiteral

def Json.ofText? (text : String) : Option Json :=
  match JsonLiteral.ofText? text with
  | some v => v.node? Json.maxDepth
  | none => none

end LedgerSchema
