import LedgerSchema.Text.Hex

/-!
Tags of YAML nodes. An escape in a tag is an octet in hexadecimal digits, and escapes in a row are a
character if the first one says how many octets it has; that they are a character that exists is not
asked for, so a tag is a list of octets and not a text. A zero octet ends it.
-/

set_option autoImplicit false

namespace LedgerSchema.Yaml

abbrev Tag := List UInt8

namespace Tag

def ofText (text : String) : Tag := text.toUTF8.toList

def core (name : String) : Tag := ofText ("tag:yaml.org,2002:" ++ name)

/-- The name behind the exclamation mark of a tag that only its text knows. An exclamation mark
alone is its own name. -/
def localName? : Tag → Option String
  | [] => none
  | c :: name =>
    if c = '!'.toUInt8 then
      String.fromUTF8? ⟨(if name.isEmpty then [c] else name).toArray⟩
    else none

/-- How many octets a character has, by the first of them. -/
def octetCount? (octet : Nat) : Option Nat :=
  if octet < 0x80 then some 1
  else if octet < 0xC0 then none
  else if octet < 0xE0 then some 2
  else if octet < 0xF0 then some 3
  else if octet < 0xF8 then some 4
  else none

def isTrailing (octet : Nat) : Bool := 0x80 ≤ octet && octet < 0xC0

/-- The octets of the characters of a tag, when the given number of octets is left of an escaped
character. -/
def octets? : Nat → List Char → Option Tag
  | 0, [] => some []
  | _ + 1, [] => none
  | left, '%' :: a :: b :: rest =>
    (hexNumber? [a, b]).bind fun octet =>
      let left? := match left with
        | 0 => (octetCount? octet).map (· - 1)
        | left + 1 => if isTrailing octet then some left else none
      left?.bind fun left => (octets? left rest).map (octet.toUInt8 :: ·)
  | 0, c :: rest => if c == '%' then none else (octets? 0 rest).map (c.toUInt8 :: ·)
  | _ + 1, _ :: _ => none

def isWordChar (c : Char) : Bool := c.isAlphanum || c == '_' || c == '-'

def isTagChar (c : Char) : Bool :=
  isWordChar c || ";/?:@&=+$.%!~*\x27()".toList.contains c

/-- The characters of a tag in angle brackets, or of what a handle stands for. -/
def isUriChar (c : Char) : Bool := isTagChar c || c == ',' || c == '[' || c == ']'

def read? (isMember : Char → Bool) (s : List Char) : Option (Tag × List Char) :=
  (octets? 0 (s.takeWhile isMember)).map fun t => (t.takeWhile (· != 0), s.dropWhile isMember)

end Tag

end LedgerSchema.Yaml
