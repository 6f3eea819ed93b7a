import LedgerSchema.Yaml.Text

/-!
Block scalars: literal ones keep their line breaks, folded ones join lines that start with no space.
Their indentation is given or that of the first line, and the breaks at their end are kept, cut to
one or stripped.
-/

set_option autoImplicit false

namespace LedgerSchema.Yaml

inductive Chomping where
  | clip
  | strip
  | keep
  deriving DecidableEq

structure BlockHeader where
  chomping : Chomping := .clip
  /-- The indentation relative to the surrounding one; zero if it is found from the first line. -/
  increment : Nat := 0

def chomping? : Char → Option Chomping
  | '+' => some .keep
  | '-' => some .strip
  | _ => none

def increment? (c : Char) : Option Nat :=
  if '1' ≤ c ∧ c ≤ '9' then some (c.toNat - 48) else none

def blockHeader (s : List Char) : BlockHeader × List Char :=
  let take (h : BlockHeader) (s : List Char) : BlockHeader × List Char :=
    match s with
    | [] => (h, [])
    | c :: rest =>
      match chomping? c, increment? c with
      | some chomping, _ => if h.chomping = .clip then ({ h with chomping }, rest) else (h, s)
      | _, some increment => if h.increment = 0 then ({ h with increment }, rest) else (h, s)
      | none, none => (h, s)
  let (h, s) := take {} s
  take h s

/-- The start of the line after an optional comment. -/
def afterLine? (s : List Char) : Option (List Char) :=
  let s := s.dropWhile isSpace
  let s := if s.head? == some '#' then s.dropWhile (!isBreak ·) else s
  match s with
  | [] => some []
  | c :: rest => if isBreak c then some rest else none

/-- Lines that hold nothing but indentation: their breaks, the indentation of the next line, the
largest one seen, and what follows. An indentation of zero is not known yet. -/
structure BlankLines where
  breaks : List Char
  column : Nat
  widest : Nat
  rest : List Char

/-- Tabs are no indentation. -/
def blankLines? (indent : Nat) : Nat → Nat → List Char → Option BlankLines
  | column, widest, [] => some ⟨[], column, max widest column, []⟩
  | column, widest, c :: rest =>
    let inIndent := indent == 0 || column < indent
    if inIndent && c == ' ' then blankLines? indent (column + 1) widest rest
    else if inIndent && c == '\t' then none
    else if isBreak c then
      (blankLines? indent 0 (max widest column) rest).map fun b =>
        { b with breaks := c :: b.breaks }
    else some ⟨[], column, max widest column, c :: rest⟩

/-- What stands between two lines of a scalar. -/
def lineGap (literal : Bool) (leading : List Char) (firstSpace nextSpace : Bool)
    (breaks : List Char) : List Char :=
  if !literal && leading == ['\n'] && !firstSpace && !nextSpace then
    if breaks = [] then [' '] else breaks
  else leading ++ breaks

/-- The lines of a scalar from the current one on, and what follows them. The break that ended the
line before, whether that line started with a space, and the empty lines after it are given. -/
def blockLines? (literal : Bool) (chomping : Chomping) (indent fuel : Nat) (leading : List Char)
    (firstSpace : Bool) (blank : BlankLines) : Option (List Char × List Char) :=
  match fuel with
  | 0 => none
  | fuel + 1 =>
    if blank.column == indent && !blank.rest.isEmpty then
      let nextSpace := blank.rest.head?.any isSpace
      let gap := lineGap literal leading firstSpace nextSpace blank.breaks
      let line := blank.rest.takeWhile (!isBreak ·)
      let ending := (blank.rest.dropWhile (!isBreak ·)).take 1
      let after := (blank.rest.dropWhile (!isBreak ·)).drop 1
      match blankLines? indent 0 0 after with
      | none => none
      | some next =>
        (blockLines? literal chomping indent fuel ending nextSpace next).map fun r =>
          (gap ++ line ++ r.1, r.2)
    else
      let kept := match chomping with
        | .strip => []
        | .clip => leading
        | .keep => leading ++ blank.breaks
      some (kept, blank.rest)

def blockScalar? (literal : Bool) (parentIndent : Int) (s : List Char) :
    Option (List Char × List Char) := do
  let (header, s) := blockHeader s
  let s ← afterLine? s
  let given := if header.increment = 0 then 0 else (max parentIndent 0).toNat + header.increment
  let blank ← blankLines? given 0 0 s
  let indent := if given = 0 then max (max blank.widest (parentIndent + 1).toNat) 1 else given
  blockLines? literal header.chomping indent (s.length + 1) [] false blank

end LedgerSchema.Yaml
