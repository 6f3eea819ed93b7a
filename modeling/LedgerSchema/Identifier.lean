/-!
The names that a schema may declare. Identifiers are ASCII and not longer than 255 bytes; a
namespace is one or more identifiers joined by dots, and only types and fields have to keep off the
reserved words.
-/

set_option autoImplicit false

namespace LedgerSchema

inductive NameRole where
  | namespaceName
  | typeName
  | fieldName
  deriving DecidableEq

def NameRole.label : NameRole → String
  | .namespaceName => "namespace"
  | .typeName => "type name"
  | .fieldName => "field name"

inductive IdentifierError where
  | empty (role : NameRole)
  | tooLong (role : NameRole) (bytes : Nat)
  | badSegment (name segment : String)
  | badIdentifier (role : NameRole) (name : String)
  | reservedWord (role : NameRole) (word : String)
  deriving DecidableEq

def maxIdentifierBytes : Nat := 255

def IdentifierError.message : IdentifierError → String
  | .empty role => s!"{role.label} cannot be empty"
  | .tooLong role bytes =>
    s!"{role.label} exceeds maximum length (max: {maxIdentifierBytes}, got: {bytes})"
  | .badSegment name segment =>
    s!"{NameRole.namespaceName.label}: invalid segment '{segment}' in {name}"
  | .badIdentifier role name =>
    s!"{role.label}: '{name}' must start with a letter, '_' or '$' and contain only letters, " ++
      "digits, '_' or '$'"
  | .reservedWord role word => s!"{role.label} cannot be a reserved word: {word}"

def isIdentifierStart (c : Char) : Bool := c.isAlpha || c == '_' || c == '$'

def isIdentifierChar (c : Char) : Bool := isIdentifierStart c || c.isDigit

/-- A letter, `_` or `$`, followed by letters, digits, `_` and `$`. -/
def isIdentifier : List Char → Bool
  | [] => false
  | c :: rest => isIdentifierStart c && rest.all isIdentifierChar

def reservedWords : List String :=
  ["abstract", "asset", "concept", "enum", "event", "extends", "identified", "import", "namespace",
    "participant", "transaction"]

def checkLength (role : NameRole) (name : String) : Except IdentifierError Unit :=
  if name = "" then .error (.empty role)
  else if maxIdentifierBytes < name.utf8ByteSize then .error (.tooLong role name.utf8ByteSize)
  else .ok ()

/-- The parts of a text between the occurrences of a character; there is always at least one. -/
def splitAt (c : Char) : List Char → List (List Char)
  | [] => [[]]
  | d :: rest =>
    if d = c then [] :: splitAt c rest
    else
      match splitAt c rest with
      | [] => [[d]]
      | first :: others => (d :: first) :: others

def checkNamespace (name : String) : Except IdentifierError Unit := do
  checkLength .namespaceName name
  match (splitAt '.' name.toList).find? (!isIdentifier ·) with
  | some segment => .error (.badSegment name (.ofList segment))
  | none => .ok ()

def checkIdentifier (role : NameRole) (name : String) : Except IdentifierError Unit := do
  checkLength role name
  if !isIdentifier name.toList then .error (.badIdentifier role name)
  else if reservedWords.contains name then .error (.reservedWord role name)
  else .ok ()

def checkTypeName (name : String) : Except IdentifierError Unit := checkIdentifier .typeName name

def checkFieldName (name : String) : Except IdentifierError Unit := checkIdentifier .fieldName name

end LedgerSchema
