import LedgerSchema.Yaml.Scalar.Folding

/-!
Plain scalars. They end before a colon with a gap after it, before a comment, at a document marker,
where a line is indented too little, and inside of brackets also before a comma or a bracket.
-/

set_option autoImplicit false

namespace LedgerSchema.Yaml

def isFlowMark (c : Char) : Bool :=
  c == ',' || c == '[' || c == ']' || c == '\x7b' || c == '\x7d'

/-- The word at the start of the text and what follows it. Inside of brackets, a colon right before
a bracket is an error. -/
def plainWord? (inFlow : Bool) : List Char → Option (List Char × List Char)
  | [] => some ([], [])
  | c :: rest =>
    if isGap c then some ([], c :: rest)
    else if inFlow && c == ':' && rest.head?.any fun d => isFlowMark d || d == '?' then none
    else if (c == ':' && atGap rest) || (inFlow && isFlowMark c) then some ([], c :: rest)
    else (plainWord? inFlow rest).map fun r => (c :: r.1, r.2)

/-- The column after a gap, unless a tab stands where a new line is to be indented. -/
def gapColumn? (indent : Nat) : Nat → Bool → List Char → Option Nat
  | column, _, [] => some column
  | column, newLine, c :: rest =>
    if isBreak c then gapColumn? indent 0 true rest
    else if newLine && column < indent && c == '\t' then none
    else gapColumn? indent (column + 1) newLine rest

structure PlainScalar where
  pieces : List Piece
  rest : List Char
  endsLine : Bool

/-- The words from a column on; the fuel bounds their number. -/
def plainScalar? (inFlow : Bool) (indent : Nat) (fuel column : Nat) (endsLine : Bool)
    (s : List Char) : Option PlainScalar :=
  match fuel with
  | 0 => none
  | fuel + 1 =>
    if (column == 0 && startsMarker s) || s.head? == some '#' then some ⟨[], s, endsLine⟩
    else
      match plainWord? inFlow s with
      | none => none
      | some ([], rest) => some ⟨[], rest, endsLine⟩
      | some (word, rest) =>
        let pieces := word.map Piece.char
        let gap := rest.takeWhile isGap
        let next := rest.dropWhile isGap
        if gap = [] then some ⟨pieces, rest, false⟩
        else
          match gapColumn? indent (column + word.length) false gap with
          | none => none
          | some column =>
            let endsLine := gap.any isBreak
            if !inFlow && column < indent then some ⟨pieces, next, endsLine⟩
            else
              (plainScalar? inFlow indent fuel column endsLine next).map fun more =>
                if more.pieces.isEmpty then { more with pieces }
                else { more with pieces := pieces ++ gap.map Piece.ofGap ++ more.pieces }

end LedgerSchema.Yaml
