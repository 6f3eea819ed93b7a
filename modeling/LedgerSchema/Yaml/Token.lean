import LedgerSchema.Yaml.Scalar.Block
import LedgerSchema.Yaml.Scalar.Plain
import LedgerSchema.Yaml.Scalar.Quoted
import LedgerSchema.Yaml.Tag

/-!
The tokens of a YAML text. Collections in block style are marked by the columns of their entries, so
a place carries the columns of the open ones. A key shows itself only by the colon after it: where
one may start is noted, and its token is put there when the colon comes.
-/

set_option autoImplicit false

namespace LedgerSchema.Yaml

/-- Double-quoted, single-quoted and folded scalars are read in the same way. -/
inductive ScalarStyle where
  | plain
  | literal
  | other
  deriving DecidableEq

inductive Token where
  | version (major minor : Nat)
  | tagHandle (handle : String) (expansion : Tag)
  | documentStart
  | documentEnd
  | blockSequence
  | blockMapping
  | blockEnd
  | flowSequence
  | flowSequenceEnd
  | flowMapping
  | flowMappingEnd
  | blockEntry
  | flowEntry
  | key
  | value
  | alias (name : String)
  | anchor (name : String)
  /-- A tag behind a handle. The empty handle stands for nothing. -/
  | tag (handle : String) (suffix : Tag)
  | scalar (text : String) (style : ScalarStyle)
  deriving DecidableEq

structure KeyStart where
  tokens : Nat
  line : Nat
  column : Nat
  offset : Nat
  required : Bool

structure Scan where
  cursor : Cursor
  tokens : Array Token := #[]
  /-- The column of the innermost open block collection, and those of the ones around it. -/
  indent : Int := -1
  indents : List Int := []
  keyAllowed : Bool := true
  key : Option KeyStart := none
  /-- The key starts outside of the open brackets, one for each bracket. -/
  outerKeys : List (Option KeyStart) := []

namespace Scan

def inFlow (s : Scan) : Bool := !s.outerKeys.isEmpty

def push (s : Scan) (t : Token) : Scan := { s with tokens := s.tokens.push t }

def skip (s : Scan) (count : Nat) : Scan := { s with cursor := s.cursor.skip count }

def moveTo (s : Scan) (rest : List Char) : Scan := { s with cursor := s.cursor.moveTo rest }

def dropKey? (s : Scan) : Option Scan :=
  match s.key with
  | some k => if k.required then none else some { s with key := none }
  | none => some s

def noteKey? (s : Scan) : Option Scan :=
  if s.keyAllowed then
    (dropKey? s).map fun s =>
      { s with
        key := some {
          tokens := s.tokens.size
          line := s.cursor.line
          column := s.cursor.column
          offset := s.cursor.offset
          required := !s.inFlow && s.indent == s.cursor.column } }
  else some s

def maxKeyLength : Nat := 1024

def isStale (c : Cursor) (k : KeyStart) : Bool :=
  k.line < c.line || k.offset + maxKeyLength < c.offset

/-- A key has to end on its line and within the longest length. Keys outside of the open brackets
are looked at once their brackets are closed. -/
def dropStale? (s : Scan) : Option Scan :=
  if s.key.any (isStale s.cursor) then dropKey? s else some s

/-- Opens a block collection at a column to the right of the open one. -/
def roll (s : Scan) (column : Nat) (position : Nat) (t : Token) : Scan :=
  if !s.inFlow && s.indent < column then
    { s with
      indents := s.indent :: s.indents
      indent := column
      tokens := s.tokens.insertIdxIfInBounds position t }
  else s

def closeTo (column indent : Int) : List Int → Int × List Int × Nat
  | [] => (indent, [], 0)
  | outer :: rest =>
    if column < indent then
      let (i, is, n) := closeTo column outer rest
      (i, is, n + 1)
    else (indent, outer :: rest, 0)

/-- Closes the block collections to the right of a column. -/
def unroll (s : Scan) (column : Int) : Scan :=
  if s.inFlow then s
  else
    let (indent, indents, closed) := closeTo column s.indent s.indents
    { s with indent, indents, tokens := s.tokens ++ Array.replicate closed .blockEnd }

/-- The place of the next token, past spaces, comments and empty lines. A line may start with a byte
order mark, which has a column of its own. -/
def toToken (fuel : Nat) (s : Scan) : Scan :=
  match fuel, s.cursor.rest with
  | fuel + 1, c :: rest =>
    if c == ' ' || (c == '\t' && (s.inFlow || !s.keyAllowed)) ||
        (c == '\uFEFF' && s.cursor.column == 0) then toToken fuel (s.skip 1)
    else if c == '#' then toToken fuel (s.moveTo (rest.dropWhile (!isBreak ·)))
    else if isBreak c then
      toToken fuel { s.skip 1 with keyAllowed := s.keyAllowed || !s.inFlow }
    else s
  | _, _ => s

/-! Directives. -/

def endOfLine (s : List Char) : Option (List Char) :=
  let s := s.dropWhile isSpace
  let s := if s.head? == some '#' then s.dropWhile (!isBreak ·) else s
  match s with
  | [] => some []
  | c :: _ => if isBreak c then some s else none

def digits? (s : List Char) : Option (Nat × List Char) :=
  let ds := s.takeWhile Char.isDigit
  if ds = [] ∨ 9 < ds.length then none
  else some (Nat.ofDigitChars 10 ds 0, s.dropWhile Char.isDigit)

def versionDirective? (s : List Char) : Option (Token × List Char) := do
  let (major, s) ← digits? (s.dropWhile isSpace)
  match s with
  | '.' :: s =>
    let (minor, s) ← digits? s
    some (.version major minor, s)
  | _ => none

/-- The handle of a tag: an exclamation mark, or a word between two of them. -/
def tagHandle? : List Char → Option (List Char × List Char)
  | '!' :: rest =>
    let word := rest.takeWhile Tag.isWordChar
    match rest.dropWhile Tag.isWordChar with
    | '!' :: rest => some ('!' :: word ++ ['!'], rest)
    | rest => if word = [] then some (['!'], rest) else none
  | _ => none

def tagDirective? (s : List Char) : Option (Token × List Char) := do
  let (handle, s) ← tagHandle? (s.dropWhile isSpace)
  if !s.head?.any isSpace then none
  let s := s.dropWhile isSpace
  let (expansion, rest) ← Tag.read? Tag.isUriChar s
  if s.head?.any Tag.isUriChar && atGap rest then
    some (.tagHandle (.ofList handle) expansion, rest)
  else none

def directive? (s : List Char) : Option (Token × List Char) := do
  let name := s.takeWhile Tag.isWordChar
  let s := s.dropWhile Tag.isWordChar
  if !atGap s then none
  let (t, s) ← if name = "YAML".toList then versionDirective? s
    else if name = "TAG".toList then tagDirective? s
    else none
  let s ← endOfLine s
  some (t, s)

/-! Tags, anchors and aliases. -/

def anchorName? (s : List Char) : Option (List Char × List Char) :=
  let name := s.takeWhile Tag.isWordChar
  let rest := s.dropWhile Tag.isWordChar
  let ends := atGap rest || rest.head?.any fun c => "?:,]\x7d%@\x60".toList.contains c
  if name ≠ [] && ends then some (name, rest) else none

/-- A tag that starts at an exclamation mark without a handle. The exclamation mark alone is a tag
that no handle stands for. -/
def localTag? (s : List Char) : Option (Token × List Char) :=
  (Tag.read? Tag.isTagChar (s.drop 1)).map fun r =>
    (if r.1.isEmpty then .tag "" (.ofText "!") else .tag "!" r.1, r.2)

def tag? (inFlow : Bool) (s : List Char) : Option (Token × List Char) := do
  let (t, rest) ← match s with
    | '!' :: '<' :: r =>
      match Tag.read? Tag.isUriChar r with
      | some (tag, '>' :: rest) =>
        if r.head?.any Tag.isUriChar then some (Token.tag "" tag, rest) else none
      | _ => none
    | s =>
      match tagHandle? s with
      | some (handle, r) =>
        if handle.length = 1 then localTag? s
        else if r.head?.any Tag.isTagChar then
          (Tag.read? Tag.isTagChar r).map fun r => (Token.tag (.ofList handle) r.1, r.2)
        else none
      | none => localTag? s
  if atGap rest || (inFlow && rest.head? == some ',') then some (t, rest) else none

/-! One token. -/

/-- Adds a token that may be the start of a key, or of the node that is one. -/
def node? (s : Scan) (read : List Char → Option (Token × List Char)) : Option Scan := do
  let s ← noteKey? s
  let (t, rest) ← read s.cursor.rest
  some { (s.push t).moveTo rest with keyAllowed := false }

def flowOpen? (s : Scan) (t : Token) : Option Scan := do
  let s ← noteKey? s
  some { (s.push t).skip 1 with keyAllowed := true, key := none, outerKeys := s.key :: s.outerKeys }

def flowClose? (s : Scan) (t : Token) : Option Scan := do
  let s ← dropKey? s
  let s := match s.outerKeys with
    | [] => s
    | key :: outerKeys => { s with key, outerKeys }
  some { (s.push t).skip 1 with keyAllowed := false }

def flowEntry? (s : Scan) : Option Scan := do
  let s ← dropKey? s
  some { (s.push .flowEntry).skip 1 with keyAllowed := true }

def rollHere? (s : Scan) (t : Token) : Option Scan :=
  if s.inFlow then some s
  else if s.keyAllowed then some (s.roll s.cursor.column s.tokens.size t)
  else none

def blockEntry? (s : Scan) : Option Scan := do
  let s ← rollHere? s .blockSequence
  let s ← dropKey? s
  some { (s.push .blockEntry).skip 1 with keyAllowed := true }

def key? (s : Scan) : Option Scan := do
  let s ← rollHere? s .blockMapping
  let s ← dropKey? s
  some { (s.push .key).skip 1 with keyAllowed := !s.inFlow }

def insertKey (s : Scan) (k : KeyStart) : Scan :=
  let tokens := s.tokens.insertIdxIfInBounds k.tokens .key
  roll { s with tokens, key := none } k.column k.tokens .blockMapping

def value? (s : Scan) : Option Scan :=
  match s.key with
  | some k => some { ((s.insertKey k).push .value).skip 1 with keyAllowed := false }
  | none => do
    let s ← rollHere? s .blockMapping
    some { (s.push .value).skip 1 with keyAllowed := !s.inFlow }

def block? (s : Scan) (literal : Bool) : Option Scan := do
  let s ← dropKey? s
  let (text, rest) ← blockScalar? literal s.indent (s.cursor.rest.drop 1)
  let style := if literal then ScalarStyle.literal else .other
  some { (s.push (.scalar (.ofList text) style)).moveTo rest with keyAllowed := true }

def plain? (s : Scan) : Option Scan := do
  let s ← noteKey? s
  let c := s.cursor
  let p ← plainScalar? s.inFlow (s.indent + 1).toNat (c.left + 1) c.column false c.rest
  let text := String.ofList (foldPieces p.pieces)
  some { (s.push (.scalar text .plain)).moveTo p.rest with keyAllowed := p.endsLine }

def quotedScalar (q : Quoted) : Option (Token × List Char) :=
  q.map fun r => (.scalar (.ofList (foldPieces r.1)) .other, r.2)

/-- A directive or a document marker: it closes all block collections. -/
def atMargin? (s : Scan) (read : List Char → Option (Token × List Char)) : Option Scan := do
  let s ← dropKey? (s.unroll (-1))
  let (t, rest) ← read s.cursor.rest
  some { (s.push t).moveTo rest with keyAllowed := false }

def isIndicator (c : Char) : Bool := "-?:,[]\x7b\x7d#&*!|>\x27\"%@\x60".toList.contains c

def token? (s : Scan) (c : Char) (rest : List Char) : Option Scan :=
  if s.cursor.column == 0 && c == '%' then atMargin? s fun r => directive? (r.drop 1)
  else if s.cursor.column == 0 && startsMarker (c :: rest) then
    atMargin? s fun r => some (if c == '-' then .documentStart else .documentEnd, r.drop 3)
  else if c == '[' then flowOpen? s .flowSequence
  else if c == '\x7b' then flowOpen? s .flowMapping
  else if c == ']' then flowClose? s .flowSequenceEnd
  else if c == '\x7d' then flowClose? s .flowMappingEnd
  else if c == ',' then flowEntry? s
  else if c == '-' && atGap rest then blockEntry? s
  else if c == '?' && (s.inFlow || atGap rest) then key? s
  else if c == ':' && (s.inFlow || atGap rest) then value? s
  else if c == '*' then
    node? s fun r => (anchorName? (r.drop 1)).map fun a => (.alias (.ofList a.1), a.2)
  else if c == '&' then
    node? s fun r => (anchorName? (r.drop 1)).map fun a => (.anchor (.ofList a.1), a.2)
  else if c == '!' then node? s (tag? s.inFlow)
  else if c == '|' && !s.inFlow then block? s true
  else if c == '>' && !s.inFlow then block? s false
  else if c == '\x27' then node? s fun r => quotedScalar (singleQuoted? (r.drop 1))
  else if c == '"' then node? s fun r => quotedScalar (doubleQuoted? (r.drop 1))
  else if !(isGap c || isIndicator c) || (c == '-' && !rest.head?.any isSpace) ||
      (!s.inFlow && (c == '?' || c == ':')) then plain? s
  else none

def tokens? : Nat → Scan → Option (List Token)
  | 0, _ => none
  | fuel + 1, s => do
    let s ← dropStale? (toToken (s.cursor.left + 1) s)
    let s := s.unroll s.cursor.column
    match s.cursor.rest with
    | [] =>
      let s ← dropKey? (s.unroll (-1))
      some s.tokens.toList
    | c :: rest =>
      let s ← token? s c rest
      tokens? fuel s

end Scan

def Token.ofText? (text : String) : Option (List Token) :=
  (characters? text).bind fun s => Scan.tokens? (s.length + 2) { cursor := .ofList s }

end LedgerSchema.Yaml
