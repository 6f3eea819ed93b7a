/-!
The characters of a YAML text, and places in it.
-/

set_option autoImplicit false

namespace LedgerSchema.Yaml

def isSpace (c : Char) : Bool := c == ' ' || c == '\t'

/-- Line breaks, once all of one line are written as a line feed. -/
def isBreak (c : Char) : Bool := c == '\n' || c == '\u2028' || c == '\u2029'

def isGap (c : Char) : Bool := isSpace c || isBreak c

def atGap : List Char → Bool
  | [] => true
  | c :: _ => isGap c

def isAllowed (c : Char) : Bool :=
  let n := c.toNat
  n == 9 || n == 0xA || n == 0xD || (0x20 ≤ n && n ≤ 0x7E) || n == 0x85 ||
    (0xA0 ≤ n && n ≤ 0xD7FF) || (0xE000 ≤ n && n ≤ 0xFFFD) || 0x10000 ≤ n

/-- Writes carriage returns and next line characters as line feeds. -/
def unifyBreaks : List Char → List Char
  | [] => []
  | '\r' :: '\n' :: rest => '\n' :: unifyBreaks rest
  | c :: rest => (if c == '\r' || c == '\u0085' then '\n' else c) :: unifyBreaks rest

def characters? (text : String) : Option (List Char) :=
  let s := text.toList
  if s.all isAllowed then some (unifyBreaks s) else none

/-- A line of three hyphens or of three dots stands between documents. -/
def startsMarker (s : List Char) : Bool :=
  (s.take 3 == ['-', '-', '-'] || s.take 3 == ['.', '.', '.']) && atGap (s.drop 3)

structure Cursor where
  rest : List Char
  left : Nat
  line : Nat := 0
  column : Nat := 0
  offset : Nat := 0

namespace Cursor

def ofList (s : List Char) : Cursor := { rest := s, left := s.length }

def step (c : Cursor) (ch : Char) : Cursor :=
  { rest := c.rest.tail
    left := c.left - 1
    line := if isBreak ch then c.line + 1 else c.line
    column := if isBreak ch then 0 else c.column + 1
    offset := c.offset + ch.utf8Size }

def skip (c : Cursor) (count : Nat) : Cursor := (c.rest.take count).foldl step c

def moveTo (c : Cursor) (rest : List Char) : Cursor := c.skip (c.left - rest.length)

end Cursor

end LedgerSchema.Yaml
