/-!
TOML tables. A table comes about by a header of its own, on the way to another header, or by a
dotted key; no table and no key is defined twice.
-/

set_option autoImplicit false

namespace LedgerSchema.Toml

/-- Strings and arrays are told apart; inline tables and all other values are no more than that. -/
inductive Value where
  | string (s : String)
  | array (items : List Value)
  | other

inductive TableOrigin where
  | header
  | path
  | dotted
  deriving DecidableEq

inductive Item where
  | value (v : Value)
  | table (origin : TableOrigin) (entries : List (String × Item))
  /-- The tables of an array, the last one first. -/
  | tables (reversed : List (List (String × Item)))

abbrev Entries := List (String × Item)

def setEntry (key : String) (item : Item) : Entries → Entries
  | [] => [(key, item)]
  | (k, i) :: rest => if k = key then (key, item) :: rest else (k, i) :: setEntry key item rest

abbrev Edit := TableOrigin → Entries → Option Entries

/-- Edits the table at a path, making the tables on the way that are missing. The path of a dotted
key does not lead through tables with a header. -/
def editAt (dotted : Bool) : List String → Edit → Edit
  | [], edit => edit
  | key :: path, edit => fun _ entries =>
    match entries.lookup key with
    | none =>
      let origin := if dotted then TableOrigin.dotted else .path
      (editAt dotted path edit origin []).map fun es => setEntry key (.table origin es) entries
    | some (.table origin inner) =>
      if dotted && origin = .header then none
      else (editAt dotted path edit origin inner).map fun es =>
        setEntry key (.table origin es) entries
    | some (.tables (last :: before)) =>
      (editAt dotted path edit .header last).map fun es =>
        setEntry key (.tables (es :: before)) entries
    | some _ => none

/-- Defines a key of a table. The last table of a dotted key is one made by dotted keys. -/
def define (path : List String) (key : String) (v : Value) : Edit :=
  editAt true path fun origin entries =>
    if (origin == .dotted) == path.isEmpty || (entries.lookup key).isSome then none
    else some (setEntry key (.value v) entries)

def openTable (path : List String) (key : String) : Edit :=
  editAt false path fun _ entries =>
    match entries.lookup key with
    | none => some (setEntry key (.table .header []) entries)
    | some (.table .path inner) => some (setEntry key (.table .header inner) entries)
    | some _ => none

def openElement (path : List String) (key : String) : Edit :=
  editAt false path fun _ entries =>
    match entries.lookup key with
    | none => some (setEntry key (.tables [[]]) entries)
    | some (.tables before) => some (setEntry key (.tables ([] :: before)) entries)
    | some _ => none

end LedgerSchema.Toml
