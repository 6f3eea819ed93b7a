import LedgerSchema.Yaml.Text

/-!
Line folding in quoted and plain scalars: a single line break between words is a space, of several
ones the first is dropped, and spaces next to a break do not count.
-/

set_option autoImplicit false

namespace LedgerSchema.Yaml

/-- A part of a scalar: a character that stands for itself, a space, a line break, or an escaped
line break. -/
inductive Piece where
  | char (c : Char)
  | space (c : Char)
  | newline (c : Char)
  | continuation

namespace Piece

def isGap : Piece → Bool
  | .space _ | .newline _ => true
  | _ => false

def space? : Piece → Option Char
  | .space c => some c
  | _ => none

def newline? : Piece → Option Char
  | .newline c => some c
  | _ => none

def ofGap (c : Char) : Piece := if isSpace c then .space c else .newline c

end Piece

def foldGap (gap : List Piece) : List Char :=
  match gap.filterMap Piece.newline? with
  | [] => gap.filterMap Piece.space?
  | ['\n'] => [' ']
  | '\n' :: more => more
  | breaks => breaks

theorem length_dropWhile_le {α : Type} (p : α → Bool) (l : List α) :
    (l.dropWhile p).length ≤ l.length := (List.dropWhile_suffix p).length_le

def foldPieces : List Piece → List Char
  | [] => []
  | .char c :: rest => c :: foldPieces rest
  | .continuation :: rest =>
    (rest.takeWhile Piece.isGap).filterMap Piece.newline? ++
      foldPieces (rest.dropWhile Piece.isGap)
  | gap :: rest =>
    foldGap (gap :: rest.takeWhile Piece.isGap) ++ foldPieces (rest.dropWhile Piece.isGap)
termination_by pieces => pieces.length
decreasing_by
  · simp
  · have := length_dropWhile_le Piece.isGap rest
    simp
    omega
  · have := length_dropWhile_le Piece.isGap rest
    simp
    omega

end LedgerSchema.Yaml
