import LedgerSchema.Yaml.Token

/-!
The nodes of a YAML text. References to anchored nodes stay in the tree, since a node may refer to
itself and to nodes after it.
-/

set_option autoImplicit false

namespace LedgerSchema.Yaml

/-- Scalars keep their style, since what one can stand for depends on it. -/
inductive Node where
  | scalar (text : String) (style : ScalarStyle) (tag : Option Tag)
  | sequence (items : List Node) (tag : Option Tag)
  | mapping (entries : List (Node × Node)) (tag : Option Tag)
  /-- The node under an anchor, by the number of the anchor. -/
  | reference (anchor : Nat)

namespace Node

def empty : Node := .scalar "" .plain none

mutual

/-- How many scalars, references, and starts and ends of collections a node has. -/
def size : Node → Nat
  | .scalar .. | .reference _ => 1
  | .sequence items _ => sizeItems items + 2
  | .mapping entries _ => sizeEntries entries + 2

def sizeItems : List Node → Nat
  | [] => 0
  | item :: rest => size item + sizeItems rest

def sizeEntries : List (Node × Node) → Nat
  | [] => 0
  | (key, value) :: rest => size key + size value + sizeEntries rest

end

end Node

structure Handles where
  version : Bool := false
  expansions : List (String × Tag) := []

structure ParseState where
  tokens : List Token
  anchors : List (String × Nat) := []
  nodes : Array (Nat × Node) := #[]
  handles : Handles := {}

abbrev Parse := StateT ParseState Option

namespace Parse

def fail {α : Type} : Parse α := fun _ => none

def peek : Parse (Option Token) := do pure (← get).tokens.head?

def advance : Parse Unit := modify fun s => { s with tokens := s.tokens.tail }

def accept (t : Token) : Parse Bool := do
  if (← peek) == some t then
    advance
    pure true
  else pure false

def expect (t : Token) : Parse Unit := do if !(← accept t) then fail

/-- Whether one of the tokens, or nothing, comes next. -/
def atOneOf (ts : List Token) : Parse Bool := do
  match ← peek with
  | none => pure true
  | some t => pure (ts.contains t)

def expandTag (handle : String) (suffix : Tag) : Parse Tag := do
  if handle = "" then pure suffix
  else
    match (← get).handles.expansions.lookup handle, handle with
    | some expansion, _ => pure (expansion ++ suffix)
    | none, "!" => pure (.ofText "!" ++ suffix)
    | none, "!!" => pure (.core "" ++ suffix)
    | none, _ => fail

/-- An anchor and a tag, in either order and each at most once. -/
def properties : Nat → Option String → Option Tag → Parse (Option String × Option Tag)
  | 0, anchor, tag => pure (anchor, tag)
  | fuel + 1, anchor, tag => do
    match ← peek, anchor, tag with
    | some (.anchor name), none, tag => do
      advance
      properties fuel (some name) tag
    | some (.tag handle suffix), anchor, none => do
      advance
      let tag ← expandTag handle suffix
      properties fuel anchor (some tag)
    | _, anchor, tag => pure (anchor, tag)

def reference (name : String) : Parse Node := do
  match (← get).anchors.lookup name with
  | some anchor => pure (.reference anchor)
  | none => fail

/-- Reads a node under an anchor. The number of the anchor is how many names there were before it,
so that an anchor whose name is taken again shares its number with the next new name. -/
def anchored (name : Option String) (read : Parse Node) : Parse Node := do
  match name with
  | none => read
  | some name => do
    let s ← get
    let anchor := s.anchors.length
    let position := s.nodes.size
    set { s with
      anchors := (name, anchor) :: s.anchors.filter (·.1 != name)
      nodes := s.nodes.push (anchor, .empty) }
    let node ← read
    modify fun s => { s with nodes := s.nodes.setIfInBounds position (anchor, node) }
    pure node

mutual

/-- A node; in block style it may be a block collection, and the value of a key may be a sequence
that is not indented. -/
def node (fuel : Nat) (block unindented : Bool) : Parse Node :=
  match fuel with
  | 0 => fail
  | fuel + 1 => do
    match ← peek with
    | some (.alias name) => do
      advance
      reference name
    | _ => do
      let (anchor, tag) ← properties 2 none none
      anchored anchor do
        match ← peek with
        | some (.scalar text style) => do
          advance
          pure (.scalar text style tag)
        | some .blockEntry =>
          if unindented then do
            let items ← unindentedItems fuel
            pure (.sequence items tag)
          else emptyNode anchor tag
        | some .flowSequence => do
          advance
          let items ← flowItems fuel true
          pure (.sequence items tag)
        | some .flowMapping => do
          advance
          let entries ← flowEntries fuel true
          pure (.mapping entries tag)
        | some .blockSequence =>
          if block then do
            advance
            let items ← blockItems fuel
            pure (.sequence items tag)
          else emptyNode anchor tag
        | some .blockMapping =>
          if block then do
            advance
            let entries ← blockEntries fuel
            pure (.mapping entries tag)
          else emptyNode anchor tag
        | _ => emptyNode anchor tag

/-- Nothing may stand for a node only with an anchor or a tag. -/
def emptyNode (anchor : Option String) (tag : Option Tag) : Parse Node :=
  if anchor.isSome || tag.isSome then pure (.scalar "" .plain tag) else fail

def nodeUnless (fuel : Nat) (ends : List Token) (block unindented : Bool) : Parse Node :=
  match fuel with
  | 0 => fail
  | fuel + 1 => do
    if ← atOneOf ends then pure .empty else node fuel block unindented

def blockItems (fuel : Nat) : Parse (List Node) :=
  match fuel with
  | 0 => fail
  | fuel + 1 => do
    if ← accept .blockEntry then
      let item ← nodeUnless fuel [.blockEntry, .blockEnd] true false
      let items ← blockItems fuel
      pure (item :: items)
    else
      expect .blockEnd
      pure []

def unindentedItems (fuel : Nat) : Parse (List Node) :=
  match fuel with
  | 0 => fail
  | fuel + 1 => do
    if ← accept .blockEntry then
      let item ← nodeUnless fuel [.blockEntry, .key, .value, .blockEnd] true false
      let items ← unindentedItems fuel
      pure (item :: items)
    else pure []

def blockEntries (fuel : Nat) : Parse (List (Node × Node)) :=
  match fuel with
  | 0 => fail
  | fuel + 1 => do
    if ← accept .key then
      let key ← nodeUnless fuel [.key, .value, .blockEnd] true true
      let value ←
        if ← accept .value then nodeUnless fuel [.key, .value, .blockEnd] true true
        else pure .empty
      let entries ← blockEntries fuel
      pure ((key, value) :: entries)
    else
      expect .blockEnd
      pure []

/-- A single entry is a mapping of its own inside of a flow sequence. If nothing stands for its key,
the token in that place belongs to the key. -/
def flowItems (fuel : Nat) (first : Bool) : Parse (List Node) :=
  match fuel with
  | 0 => fail
  | fuel + 1 => do
    if ← accept .flowSequenceEnd then pure []
    else
      if !first then expect .flowEntry
      if ← accept .flowSequenceEnd then pure []
      else
        let item ←
          if ← accept .key then do
            let key ←
              if ← atOneOf [.value, .flowEntry, .flowSequenceEnd] then do
                advance
                pure Node.empty
              else node fuel false false
            let value ←
              if ← accept .value then nodeUnless fuel [.flowEntry, .flowSequenceEnd] false false
              else pure .empty
            pure (.mapping [(key, value)] none)
          else node fuel false false
        let items ← flowItems fuel false
        pure (item :: items)

def flowEntries (fuel : Nat) (first : Bool) : Parse (List (Node × Node)) :=
  match fuel with
  | 0 => fail
  | fuel + 1 => do
    if ← accept .flowMappingEnd then pure []
    else
      if !first then expect .flowEntry
      if ← accept .flowMappingEnd then pure []
      else
        let entry ←
          if ← accept .key then do
            let key ← nodeUnless fuel [.value, .flowEntry, .flowMappingEnd] false false
            let value ←
              if ← accept .value then nodeUnless fuel [.flowEntry, .flowMappingEnd] false false
              else pure .empty
            pure (key, value)
          else do
            let key ← node fuel false false
            pure (key, .empty)
        let entries ← flowEntries fuel false
        pure (entry :: entries)

end

/-- Directives up to a document start: at most one version, and each handle once. -/
def directives : Nat → Parse Unit
  | 0 => fail
  | fuel + 1 => do
    match ← peek with
    | some (.version major minor) => do
      advance
      let h := (← get).handles
      if h.version || major != 1 || (minor != 1 && minor != 2) then fail
      modify fun s => { s with handles := { h with version := true } }
      directives fuel
    | some (.tagHandle handle expansion) => do
      advance
      let h := (← get).handles
      if (h.expansions.lookup handle).isSome then fail
      modify fun s =>
        { s with handles := { h with expansions := (handle, expansion) :: h.expansions } }
      directives fuel
    | some .documentStart => advance
    | _ => fail

def documentEnds : Nat → Parse Unit
  | 0 => pure ()
  | fuel + 1 => do if ← accept .documentEnd then documentEnds fuel

/-- The root of a document. It may be left out only after a document start. -/
def root (fuel : Nat) : Parse Node := do
  match ← peek with
  | some (.version ..) | some (.tagHandle ..) | some .documentStart => do
    directives fuel
    nodeUnless fuel [.documentStart, .documentEnd] true false
  | _ => node fuel true false

def document (fuel : Nat) : Parse Node := do
  if (← peek).isNone then pure .empty
  else
    let root ← root fuel
    documentEnds fuel
    if (← peek).isSome then fail
    pure root

end Parse

structure Graph where
  root : Node
  /-- The anchored nodes, the last one first. -/
  anchored : List (Nat × Node)

namespace Graph

def ofText? (text : String) : Option Graph :=
  (Token.ofText? text).bind fun tokens =>
    let fuel := 3 * tokens.length + 3
    ((Parse.document fuel).run { tokens }).map fun r => ⟨r.1, r.2.nodes.toList.reverse⟩

/-- The last node under an anchor, wherever the reference is. -/
def node? (g : Graph) (anchor : Nat) : Option Node := g.anchored.lookup anchor

end Graph

end LedgerSchema.Yaml
