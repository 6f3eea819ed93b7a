/-!
Qualified names: a namespace and a simple name joined by a dot. The last dot of a qualified name
separates the two.
-/

set_option autoImplicit false

namespace LedgerSchema

/-- A name without a namespace stands alone. -/
def qualifiedName (ns name : String) : String :=
  if ns = "" then name else ns ++ "." ++ name

def splitLast? (c : Char) : List Char → Option (List Char × List Char)
  | [] => none
  | d :: rest =>
    match splitLast? c rest with
    | some (before, after) => some (d :: before, after)
    | none => if d = c then some ([], rest) else none

/-- The namespace and the simple name, around the last dot if the name has a dot. -/
def splitDots? (name : String) : Option (String × String) :=
  (splitLast? '.' name.toList).map fun p => (.ofList p.1, .ofList p.2)

/-- A name without a dot has the empty namespace. -/
def splitName (name : String) : String × String := (splitDots? name).getD ("", name)

def namespaceOf (name : String) : String := (splitName name).1

def simpleName (name : String) : String := (splitName name).2

def systemNamespace : String := "org.hyperledger.composer.system"

def entryNamespace : String := "org.hyperledger.composer.model"

/-- The concept that stands for an entry of a map. -/
def entryName : String := "org.hyperledger.composer.model.Entry"

theorem splitLast?_eq_none_iff {c : Char} {s : List Char} : splitLast? c s = none ↔ c ∉ s := by
  induction s with
  | nil => simp [splitLast?]
  | cons d rest ih =>
    cases h : splitLast? c rest with
    | none => grind [splitLast?]
    | some p => grind [splitLast?]

theorem splitLast?_append_cons {c : Char} (before : List Char) {after : List Char}
    (h : c ∉ after) : splitLast? c (before ++ c :: after) = some (before, after) := by
  induction before with
  | nil => simp [splitLast?, splitLast?_eq_none_iff.2 h]
  | cons d rest ih => simp [splitLast?, ih]

end LedgerSchema
