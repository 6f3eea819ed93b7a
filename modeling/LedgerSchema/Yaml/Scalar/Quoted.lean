import LedgerSchema.Text.Hex
import LedgerSchema.Yaml.Scalar.Folding

/-!
Quoted scalars. Between single quotes a quote is written twice; between double quotes there are
escapes. A document marker at the start of a line is not allowed in either.
-/

set_option autoImplicit false

namespace LedgerSchema.Yaml

abbrev Quoted := Option (List Piece × List Char)

def Quoted.cons (p : Piece) (q : Quoted) : Quoted := q.map fun r => (p :: r.1, r.2)

/-- A space, a break or a character that stands for itself, in front of the rest. -/
def Quoted.plain (c : Char) (rest : List Char) (q : Quoted) : Quoted :=
  if isBreak c then (if startsMarker rest then none else q.cons (.newline c))
  else if isSpace c then q.cons (.space c)
  else q.cons (.char c)

def singleQuoted? : List Char → Quoted
  | [] => none
  | '\x27' :: '\x27' :: rest => (singleQuoted? rest).cons (.char '\x27')
  | '\x27' :: rest => some ([], rest)
  | c :: rest => (singleQuoted? rest).plain c rest

def simpleEscape? : Char → Option Char
  | '0' => some '\x00'
  | 'a' => some '\x07'
  | 'b' => some '\x08'
  | 't' | '\t' => some '\t'
  | 'n' => some '\n'
  | 'v' => some '\x0b'
  | 'f' => some '\x0c'
  | 'r' => some '\r'
  | 'e' => some '\x1b'
  | ' ' => some ' '
  | '"' => some '"'
  | '/' => some '/'
  | '\\' => some '\\'
  | 'N' => some '\u0085'
  | '_' => some '\u00a0'
  | 'L' => some '\u2028'
  | 'P' => some '\u2029'
  | _ => none

def Quoted.char? (c : Option Char) (q : Quoted) : Quoted := c.bind fun c => q.cons (.char c)

def doubleQuoted? : List Char → Quoted
  | [] => none
  | '"' :: rest => some ([], rest)
  | '\\' :: 'x' :: a :: b :: rest => (doubleQuoted? rest).char? (hexChar? [a, b])
  | '\\' :: 'u' :: a :: b :: c :: d :: rest => (doubleQuoted? rest).char? (hexChar? [a, b, c, d])
  | '\\' :: 'U' :: a :: b :: c :: d :: e :: f :: g :: h :: rest =>
    (doubleQuoted? rest).char? (hexChar? [a, b, c, d, e, f, g, h])
  | '\\' :: c :: rest =>
    if isBreak c then (if startsMarker rest then none else (doubleQuoted? rest).cons .continuation)
    else (doubleQuoted? rest).char? (simpleEscape? c)
  | c :: rest => (doubleQuoted? rest).plain c rest

end LedgerSchema.Yaml
