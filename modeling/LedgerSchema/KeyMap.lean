/-!
Finite maps from text keys, kept as lists of pairs in ascending order of the keys.
-/

set_option autoImplicit false

namespace LedgerSchema

universe u
variable {β : Type u}

/-- Puts the value under the key in its place; a value that the key had is gone. -/
def insertKey (key : String) (value : β) : List (String × β) → List (String × β)
  | [] => [(key, value)]
  | (k, v) :: rest =>
    if key = k then (key, value) :: rest
    else if key < k then (key, value) :: (k, v) :: rest
    else (k, v) :: insertKey key value rest

/-- The map with the given entries; the last of several values for one key wins. -/
def mapOfList (entries : List (String × β)) : List (String × β) :=
  entries.foldl (fun m e => insertKey e.1 e.2 m) []

@[simp] theorem lookup_insertKey_self (key : String) (value : β) (m : List (String × β)) :
    (insertKey key value m).lookup key = some value := by
  fun_induction insertKey key value m <;> grind

theorem lookup_insertKey_ne {key k : String} (h : k ≠ key) (value : β) (m : List (String × β)) :
    (insertKey key value m).lookup k = m.lookup k := by
  fun_induction insertKey key value m <;> grind

end LedgerSchema
