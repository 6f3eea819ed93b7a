import LedgerSchema.Text.Hex

/-!
The words of a TOML text: white space, comments, keys and the four kinds of string.
-/

set_option autoImplicit false

namespace LedgerSchema.Toml

def isSpace (c : Char) : Bool := c == ' ' || c == '\t'

/-- Everything but control characters; a tab is none. -/
def isPrintable (c : Char) : Bool := c == '\t' || (0x20 ≤ c.toNat && c.toNat != 0x7F)

def skipSpace (s : List Char) : List Char := s.dropWhile isSpace

def newline? : List Char → Option (List Char)
  | '\n' :: rest => some rest
  | '\r' :: '\n' :: rest => some rest
  | _ => none

/-- The end of a comment, if one comes next; its characters have to be printable. -/
def skipComment : List Char → List Char
  | '#' :: rest => rest.dropWhile isPrintable
  | s => s

def endLine? (s : List Char) : Option (List Char) :=
  match skipComment (skipSpace s) with
  | [] => some []
  | s => newline? s

def skipLines (fuel : Nat) (s : List Char) : List Char :=
  match fuel with
  | 0 => s
  | fuel + 1 =>
    let s := skipComment (skipSpace s)
    match newline? s with
    | some rest => skipLines fuel rest
    | none => s

abbrev Content := Option (List Char × List Char)

def Content.cons (c : Char) (r : Content) : Content := r.map fun r => (c :: r.1, r.2)

def Content.cons? (c : Option Char) (r : Content) : Content := c.bind r.cons

def simpleEscape? : Char → Option Char
  | 'b' => some '\x08'
  | 't' => some '\t'
  | 'n' => some '\n'
  | 'f' => some '\x0c'
  | 'r' => some '\r'
  | '"' => some '"'
  | '\\' => some '\\'
  | _ => none

def basic? : List Char → Content
  | [] => none
  | '"' :: rest => some ([], rest)
  | '\\' :: 'u' :: a :: b :: c :: d :: rest => (basic? rest).cons? (hexChar? [a, b, c, d])
  | '\\' :: 'U' :: a :: b :: c :: d :: e :: f :: g :: h :: rest =>
    (basic? rest).cons? (hexChar? [a, b, c, d, e, f, g, h])
  | '\\' :: c :: rest => (basic? rest).cons? (simpleEscape? c)
  | c :: rest => if isPrintable c then (basic? rest).cons c else none

def literal? : List Char → Content
  | [] => none
  | '\x27' :: rest => some ([], rest)
  | c :: rest => if isPrintable c then (literal? rest).cons c else none

/-- Three quotes end a string over several lines; up to two more in front of them belong to it.
After a backslash at the end of a line, white space is trimmed. -/
def multilineBasic? : Bool → List Char → Content
  | _, [] => none
  | _, '"' :: '"' :: '"' :: '"' :: '"' :: rest => some (['"', '"'], rest)
  | _, '"' :: '"' :: '"' :: '"' :: rest => some (['"'], rest)
  | _, '"' :: '"' :: '"' :: rest => some ([], rest)
  | _, '\\' :: 'u' :: a :: b :: c :: d :: rest =>
    (multilineBasic? false rest).cons? (hexChar? [a, b, c, d])
  | _, '\\' :: 'U' :: a :: b :: c :: d :: e :: f :: g :: h :: rest =>
    (multilineBasic? false rest).cons? (hexChar? [a, b, c, d, e, f, g, h])
  | _, '\\' :: c :: rest =>
    if (newline? (skipSpace (c :: rest))).isSome then multilineBasic? true (c :: rest)
    else (multilineBasic? false rest).cons? (simpleEscape? c)
  | trimming, '\r' :: '\n' :: rest =>
    if trimming then multilineBasic? true rest else (multilineBasic? false rest).cons '\n'
  | trimming, c :: rest =>
    if trimming && (isSpace c || c == '\n') then multilineBasic? true rest
    else if isPrintable c || c == '\n' then (multilineBasic? false rest).cons c
    else none

def multilineLiteral? : List Char → Content
  | [] => none
  | '\x27' :: '\x27' :: '\x27' :: '\x27' :: '\x27' :: rest => some (['\x27', '\x27'], rest)
  | '\x27' :: '\x27' :: '\x27' :: '\x27' :: rest => some (['\x27'], rest)
  | '\x27' :: '\x27' :: '\x27' :: rest => some ([], rest)
  | '\r' :: '\n' :: rest => (multilineLiteral? rest).cons '\n'
  | c :: rest => if isPrintable c || c == '\n' then (multilineLiteral? rest).cons c else none

/-- A line break right after the opening quotes does not count. -/
def afterOpening (s : List Char) : List Char := (newline? s).getD s

def string? : List Char → Content
  | '"' :: '"' :: '"' :: rest => multilineBasic? false (afterOpening rest)
  | '\x27' :: '\x27' :: '\x27' :: rest => multilineLiteral? (afterOpening rest)
  | '"' :: rest => basic? rest
  | '\x27' :: rest => literal? rest
  | _ => none

def isBareChar (c : Char) : Bool := c.isAlphanum || c == '_' || c == '-'

def simpleKey? (s : List Char) : Content :=
  match s with
  | '"' :: rest => basic? rest
  | '\x27' :: rest => literal? rest
  | s => if (s.takeWhile isBareChar).isEmpty then none
    else some (s.takeWhile isBareChar, s.dropWhile isBareChar)

/-- Simple keys with dots between them, and the place after the spaces behind them. The fuel bounds
the number of dots. -/
def keyParts? (fuel : Nat) (s : List Char) : Option (List String × List Char) :=
  match fuel with
  | 0 => none
  | fuel + 1 =>
    match simpleKey? (skipSpace s) with
    | none => none
    | some (name, rest) =>
      match skipSpace rest with
      | '.' :: rest => (keyParts? fuel rest).map fun r => (String.ofList name :: r.1, r.2)
      | rest => some ([String.ofList name], rest)

/-- How many arrays and inline tables may be open at once, and how many parts a key may have. -/
def maxDepth : Nat := 79

def key? (s : List Char) : Option (List String × List Char) :=
  (keyParts? (s.length + 1) s).filter fun r => r.1.length ≤ maxDepth

end LedgerSchema.Toml
