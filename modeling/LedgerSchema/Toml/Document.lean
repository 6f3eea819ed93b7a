import LedgerSchema.Toml.Scalar
import LedgerSchema.Toml.Table

/-!
The table of a TOML text.
-/

set_option autoImplicit false

namespace LedgerSchema.Toml

def splitPath (key : List String) : List String × String := (key.dropLast, key.getLastD "")

mutual

/-- A value at the start of the text, when at most `depth` more arrays and inline tables may be
opened. -/
def value? (fuel depth : Nat) (s : List Char) : Option (Value × List Char) :=
  match fuel with
  | 0 => none
  | fuel + 1 =>
    match s, depth with
    | '[' :: rest, depth + 1 => (items? fuel depth rest).map fun r => (.array r.1, r.2)
    | '\x7b' :: rest, depth + 1 =>
      match skipSpace rest with
      | '\x7d' :: rest => some (.other, rest)
      | rest => (inlineTable? fuel depth [] rest).map fun rest => (.other, rest)
    | '[' :: _, 0 | '\x7b' :: _, 0 => none
    | s, _ =>
      match s.head? with
      | some '"' | some '\x27' => (string? s).map fun r => (.string (.ofList r.1), r.2)
      | _ => (scalar? s).map fun rest => (.other, rest)

def items? (fuel depth : Nat) (s : List Char) : Option (List Value × List Char) :=
  match fuel with
  | 0 => none
  | fuel + 1 =>
    match skipLines (s.length + 1) s with
    | ']' :: rest => some ([], rest)
    | s =>
      match value? fuel depth s with
      | none => none
      | some (v, rest) =>
        match skipLines (rest.length + 1) rest with
        | ',' :: rest => (items? fuel depth rest).map fun r => (v :: r.1, r.2)
        | ']' :: rest => some ([v], rest)
        | _ => none

def inlineTable? (fuel depth : Nat) (entries : Entries) (s : List Char) : Option (List Char) :=
  match fuel with
  | 0 => none
  | fuel + 1 =>
    match key? s with
    | some (key, '=' :: rest) =>
      match value? fuel depth (skipSpace rest) with
      | none => none
      | some (v, rest) =>
        match define (splitPath key).1 (splitPath key).2 v .header entries with
        | none => none
        | some entries =>
          match skipSpace rest with
          | ',' :: rest => inlineTable? fuel depth entries rest
          | '\x7d' :: rest => some rest
          | _ => none
    | _ => none

end

def keyValue? (s : List Char) : Option ((List String × Value) × List Char) := do
  let (key, s) ← key? s
  match s with
  | '=' :: s =>
    let (v, s) ← value? (2 * s.length + 2) maxDepth (skipSpace s)
    let s ← endLine? s
    some ((key, v), s)
  | _ => none

def header? (closing : List Char) (s : List Char) : Option (List String × List Char) := do
  let (key, s) ← key? s
  if closing.isPrefixOf s then
    let s ← endLine? (s.drop closing.length)
    some (key, s)
  else none

/-- The table of the lines from the current one on, given what was defined before and the header
that holds now. The fuel bounds the number of lines. -/
def lines? (fuel : Nat) (header : List String) (entries : Entries) (s : List Char) :
    Option Entries :=
  match fuel with
  | 0 => none
  | fuel + 1 =>
    match skipLines (s.length + 1) s with
    | [] => some entries
    | '[' :: '[' :: s => do
      let (key, s) ← header? [']', ']'] s
      let entries ← openElement (splitPath key).1 (splitPath key).2 .header entries
      lines? fuel key entries s
    | '[' :: s => do
      let (key, s) ← header? [']'] s
      let entries ← openTable (splitPath key).1 (splitPath key).2 .header entries
      lines? fuel key entries s
    | s => do
      let ((key, v), s) ← keyValue? s
      let entries ←
        editAt false header (define (splitPath key).1 (splitPath key).2 v) .header entries
      lines? fuel header entries s

/-- The entries of a text; a byte order mark in front of it is ignored. -/
def ofText? (text : String) : Option Entries :=
  let s := match text.toList with
    | '\uFEFF' :: rest => rest
    | s => s
  lines? (s.length + 1) [] [] s

end LedgerSchema.Toml
