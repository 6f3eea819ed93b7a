import LedgerSchema.Name

/-!
Relative paths: segments with slashes between them. Empty segments and single dots name nothing.
-/

set_option autoImplicit false

namespace LedgerSchema.Path

def segments (path : String) : List String := path.splitOn "/"

/-- The last segment that names something, unless it is the directory around. -/
def fileName? (path : String) : Option String :=
  ((segments path).filter (· ∉ ["", "."])).getLast?.filter (· ≠ "..")

/-- What follows the last dot of the file name. A dot in front of the name starts no extension. -/
def extension? (path : String) : Option String :=
  (fileName? path).bind fun name =>
    match splitLast? '.' name.toList with
    | some (stem, extension) => if stem = [] then none else some (.ofList extension)
    | none => none

/-- The longest segment and the longest path of a file, in bytes. -/
def maxSegmentBytes : Nat := 255

def maxBytes : Nat := 4095

/-- Whether a file can be made at a path in an empty directory: the last segment names the file, and
the path passes through no other directory. -/
def isCreatable (path : String) : Bool :=
  path.utf8ByteSize ≤ maxBytes && !path.startsWith "/" && !path.toList.contains '\x00' &&
    match (segments path).reverse with
    | [] => false
    | last :: before =>
      last ∉ ["", ".", ".."] && last.utf8ByteSize ≤ maxSegmentBytes &&
        before.all (["", ".", ".."].contains ·)

end LedgerSchema.Path
