import LedgerSchema.KeyMap
import LedgerSchema.Number.Text

/-!
JSON nodes. The members of an object are a map, and a number is either a whole number or a double:
whole numbers are those that fit 64 bits, signed or unsigned.
-/

set_option autoImplicit false

namespace LedgerSchema

inductive JsonNumber where
  | int (n : Int)
  | double (x : Binary64)
  deriving DecidableEq

inductive Json where
  | null
  | bool (b : Bool)
  | number (n : JsonNumber)
  | string (s : String)
  | array (items : List Json)
  | object (members : List (String × Json))

def JsonNumber.int64? : JsonNumber → Option Int64
  | .int n => int64OfInt? n
  | .double _ => none

def JsonNumber.toBinary64 : JsonNumber → Binary64
  | .int n => .ofInt n
  | .double x => x

namespace Json

def int (n : Int) : Json := .number (.int n)

def int64? : Json → Option Int64
  | .number n => n.int64?
  | _ => none

def string? : Json → Option String
  | .string s => some s
  | _ => none

def member? (name : String) : Json → Option Json
  | .object members => members.lookup name
  | _ => none

end Json

end LedgerSchema
