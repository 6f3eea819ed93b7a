import LedgerSchema.Json.Basic

/-!
JSON nodes as text without spaces. Strings escape what JSON requires and nothing else.
-/

set_option autoImplicit false

namespace LedgerSchema

/-- Doubles are positional from 0.00001 up to below 10 to the 16th. -/
def jsonDoubles : DecimalLayout := ⟨-5, 15⟩

def boolText (b : Bool) : String := if b then "true" else "false"

def intText (n : Int) : List Char :=
  (if n < 0 then ['-'] else []) ++ Nat.toDigits 10 n.natAbs

def JsonNumber.text : JsonNumber → String
  | .int n => .ofList (intText n)
  | .double x => .ofList (x.finiteText jsonDoubles)

def hexDigit (n : Nat) : Char := Nat.digitChar (n % 16)

def escapeChar (c : Char) : List Char :=
  if c == '"' then ['\\', '"']
  else if c == '\\' then ['\\', '\\']
  else if c == '\x08' then ['\\', 'b']
  else if c == '\x0c' then ['\\', 'f']
  else if c == '\n' then ['\\', 'n']
  else if c == '\r' then ['\\', 'r']
  else if c == '\t' then ['\\', 't']
  else if c.toNat < 0x20 then ['\\', 'u', '0', '0', hexDigit (c.toNat / 16), hexDigit c.toNat]
  else [c]

def quoted (s : String) : String := .ofList ('"' :: (s.toList.flatMap escapeChar ++ ['"']))

namespace Json

mutual

def text : Json → String
  | .null => "null"
  | .bool b => boolText b
  | .number n => n.text
  | .string s => quoted s
  | .array items => "[" ++ ",".intercalate (itemTexts items) ++ "]"
  | .object members => "\x7b" ++ ",".intercalate (memberTexts members) ++ "\x7d"

def itemTexts : List Json → List String
  | [] => []
  | item :: rest => text item :: itemTexts rest

def memberTexts : List (String × Json) → List String
  | [] => []
  | (name, value) :: rest => (quoted name ++ ":" ++ text value) :: memberTexts rest

end

end Json

end LedgerSchema
