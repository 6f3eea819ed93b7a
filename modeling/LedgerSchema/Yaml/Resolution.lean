import LedgerSchema.Number.Text
import LedgerSchema.Text.Hex
import LedgerSchema.Yaml.Node

/-!
What a scalar stands for: nothing, a truth value, a number, or its text. A number may be a whole
one, in decimal or after `0x`, `0o` or `0b`, or a finite or special double; digits after a leading
zero are text. A tag that all texts know takes one of these, whatever the style.
-/

set_option autoImplicit false

namespace LedgerSchema.Yaml

inductive PlainMeaning where
  | null
  | bool (b : Bool)
  | number (wide : Bool)
  | text
  deriving DecidableEq

def isNullWord (text : String) : Bool := ["~", "null", "Null", "NULL"].contains text

def bool? (text : String) : Option Bool :=
  if ["true", "True", "TRUE"].contains text then some true
  else if ["false", "False", "FALSE"].contains text then some false
  else none

def radixNumber? (radix : Nat) (ds : List Char) : Option Nat :=
  if ds = [] then none
  else ds.foldlM (fun n c => (hexValue? c).bind fun d =>
    if d < radix then some (radix * n + d) else none) 0

def isZeroPadded (s : List Char) : Bool :=
  let ds := (splitSign s).2
  ds.length > 1 && ds.head? == some '0' && ds.all Char.isDigit

def int? (s : List Char) : Option Int :=
  let (negative, ds) := splitSign s
  let n := match ds with
    | '0' :: 'x' :: ds => radixNumber? 16 ds
    | '0' :: 'o' :: ds => radixNumber? 8 ds
    | '0' :: 'b' :: ds => radixNumber? 2 ds
    | ds => if isZeroPadded s then none else radixNumber? 10 ds
  (n.map (applySign negative)).filter fun n => -Int.pow 2 127 ≤ n ∧ n < Int.pow 2 128

def specialDoubles : List String :=
  [".inf", ".Inf", ".INF", "+.inf", "+.Inf", "+.INF", "-.inf", "-.Inf", "-.INF",
    ".nan", ".NaN", ".NAN"]

def isDouble (text : String) : Bool :=
  specialDoubles.contains text || (Binary64.ofText? text.toList).any (·.isFinite)

/-- A whole number of more than 64 bits is wide. -/
def intMeaning (n : Int) : PlainMeaning :=
  .number (n < Int64.minValue.toInt || UInt64.size ≤ n)

def plainMeaning (text : String) : PlainMeaning :=
  if text = "" || isNullWord text then .null
  else
    match bool? text, int? text.toList with
    | some b, _ => .bool b
    | none, some n => intMeaning n
    | none, none =>
      if !isZeroPadded text.toList && isDouble text then .number false else .text

/-- What a scalar stands for under its tag; `none` if its text does not fit the tag, or if the tag
is one that only this text knows. -/
def meaning? (text : String) (style : ScalarStyle) (tag : Option Tag) : Option PlainMeaning :=
  let untagged := if style = .plain then plainMeaning text else .text
  match tag with
  | none => some untagged
  | some t =>
    if t.localName?.isSome then none
    else if t = .core "null" then (if isNullWord text then some .null else none)
    else if t = .core "bool" then (bool? text).map .bool
    else if t = .core "int" then (int? text.toList).map intMeaning
    else if t = .core "float" then (if isDouble text then some (.number false) else none)
    else if t.head? = some '!'.toUInt8 then some untagged
    else some .text

end LedgerSchema.Yaml
