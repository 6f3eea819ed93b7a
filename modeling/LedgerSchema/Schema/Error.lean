import LedgerSchema.Kind

/-!
Why declarations make no schema.
-/

set_option autoImplicit false

namespace LedgerSchema

inductive SchemaError where
  | illegalParent (type parent : String) (kind : Kind)
  | missingElementType (field : String)
  | arrayElementType (field : String)
  | illegalFieldType (field : String)
  | duplicateKey (existing duplicate : String)
  | transactionKey (transaction : String)
  | transactionReservedField (transaction : String)
  | missingKey (model : String)
  | inheritanceCycle (path : List String)
  | emptyStatement (description : String)
  deriving DecidableEq

/-- The field that the ledger adds to transactions itself. -/
def transactionIdField : String := "transactionId"

def SchemaError.message : SchemaError → String
  | .illegalParent type parent kind =>
    s!"parent of '{type}' is '{parent}', not annotated with @{kind.name}"
  | .missingElementType field => s!"genericType is required for collection type:{field}"
  | .arrayElementType field =>
    s!"unable to specify array as generic type for collection type:{field}"
  | .illegalFieldType field => s!"illegal non-primitive type of DataField:{field}"
  | .duplicateKey existing duplicate => s!"Duplicate primary key: {existing}, {duplicate}"
  | .transactionKey transaction => s!"No primary key for transaction type:{transaction}"
  | .transactionReservedField transaction =>
    s!"No field named '{transactionIdField}' for transaction type:{transaction}"
  | .missingKey model => s!"primary key of String type must be given for {model}"
  | .inheritanceCycle path => "inheritance cycle detected: " ++ " -> ".intercalate path
  | .emptyStatement description => s!"fail to build query '{description}': statement is empty"

end LedgerSchema
