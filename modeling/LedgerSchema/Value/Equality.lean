import LedgerSchema.Value.Basic

/-!
Equality of values. Doubles are compared as numbers, sets without regard to order, and resources
without regard to null fields.
-/

set_option autoImplicit false

namespace LedgerSchema

namespace Value

mutual

def beq : Value → Value → Bool
  | .null, .null => true
  | .string s, .string t => s == t
  | .long m, .long n => m == n
  | .integer m, .integer n => m == n
  | .double x, .double y => x.numEq y
  | .dateTime s, .dateTime t => s == t
  | .boolean a, .boolean b => a == b
  | .enum s, .enum t => s == t
  | .list xs, .list ys => beqItems xs ys
  | .array xs, .array ys => beqItems xs ys
  | .set xs, .set ys => xs.length == ys.length && allIn xs ys
  | .map xs, .map ys => beqEntries xs ys
  | .resource c xs, .resource d ys => c == d && beqPresent xs (presentFields ys)
  | _, _ => false
termination_by structural x => x

def beqItems : List Value → List Value → Bool
  | [], [] => true
  | x :: xs, y :: ys => beq x y && beqItems xs ys
  | _, _ => false
termination_by structural xs => xs

/-- Every item of the first list equals one of the second. -/
def allIn : List Value → List Value → Bool
  | [], _ => true
  | x :: xs, ys => ys.any (fun y => beq x y) && allIn xs ys
termination_by structural xs => xs

def beqEntries : List (String × Value) → List (String × Value) → Bool
  | [], [] => true
  | (k, x) :: xs, (l, y) :: ys => k == l && beq x y && beqEntries xs ys
  | _, _ => false
termination_by structural xs => xs

/-- Equality of the present fields of the first list with a list of present fields. -/
def beqPresent : List (String × Value) → List (String × Value) → Bool
  | [], ys => ys.isEmpty
  | (k, x) :: xs, ys =>
    if x.isNull then beqPresent xs ys
    else
      match ys with
      | [] => false
      | (l, y) :: ys => k == l && beq x y && beqPresent xs ys
termination_by structural xs => xs

end

instance : BEq Value := ⟨beq⟩

end Value

instance : BEq Resource := ⟨fun a b => a.toValue == b.toValue⟩

/-! A set is the list of its items in the order of insertion, each equal to no earlier one. -/

def setContains (items : List Value) (v : Value) : Bool := items.any (· == v)

def setInsert (items : List Value) (v : Value) : List Value :=
  if setContains items v then items else items ++ [v]

def setOfList (items : List Value) : List Value := items.foldl setInsert []

end LedgerSchema
