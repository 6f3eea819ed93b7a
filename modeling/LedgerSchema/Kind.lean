/-!
The kinds of resource that a type can be declared as.
-/

set_option autoImplicit false

namespace LedgerSchema

/-- Assets and participants have a key, transactions get their identity when they are submitted,
concepts and events have none. -/
inductive Kind where
  | asset
  | participant
  | transaction
  | concept
  | event
  deriving DecidableEq

namespace Kind

def name : Kind → String
  | .asset => "Asset"
  | .participant => "Participant"
  | .transaction => "Transaction"
  | .concept => "Concept"
  | .event => "Event"

def keyword : Kind → String
  | .asset => "asset"
  | .participant => "participant"
  | .transaction => "transaction"
  | .concept => "concept"
  | .event => "event"

def ofKeyword? (word : String) : Option Kind :=
  [asset, participant, transaction, concept, event].find? (·.keyword = word)

/-- The kinds that schema files are made of, in the order in which they are reflected. -/
def reflected : List Kind := [.asset, .participant, .transaction, .concept]

def isReflected (k : Kind) : Bool := k ∈ reflected

/-- Instances without identity are always written in place. -/
def alwaysEmbedded : Kind → Bool
  | .concept | .event => true
  | _ => false

theorem ofKeyword?_keyword (k : Kind) : ofKeyword? k.keyword = some k := by cases k <;> decide

end Kind

end LedgerSchema
