/-!
White space as the Unicode standard lists it, and what is left of a text without the white space
around it.
-/

set_option autoImplicit false

namespace LedgerSchema

/-- The characters with the `White_Space` property. -/
def isBlank (c : Char) : Bool :=
  let n := c.toNat
  (9 ≤ n && n ≤ 13) || n == 0x20 || n == 0x85 || n == 0xA0 || n == 0x1680 ||
    (0x2000 ≤ n && n ≤ 0x200A) || n == 0x2028 || n == 0x2029 || n == 0x202F || n == 0x205F ||
    n == 0x3000

def dropBlankEnd (s : List Char) : List Char := (s.reverse.dropWhile isBlank).reverse

def trim (s : List Char) : List Char := dropBlankEnd (s.dropWhile isBlank)

/-- A text is blank when it has no other characters than white space; the empty text is blank. -/
def isBlankText (s : String) : Bool := s.toList.all isBlank

theorem length_dropBlankEnd_le (s : List Char) : (dropBlankEnd s).length ≤ s.length := by
  have h := (List.dropWhile_suffix (l := s.reverse) isBlank).length_le
  simpa [dropBlankEnd] using h

theorem length_trim_le (s : List Char) : (trim s).length ≤ s.length :=
  Nat.le_trans (length_dropBlankEnd_le _) (List.dropWhile_suffix isBlank).length_le

end LedgerSchema
