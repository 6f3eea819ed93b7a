import LedgerSchema.Name

/-!
What a business network archive is called, and the namespaces that it leaves out.
-/

set_option autoImplicit false

namespace LedgerSchema

structure NetworkConfig where
  name : String := "business-network"
  version : String := "0.0.1"
  description : String := ""
  excluded : List String := [systemNamespace]
  deriving DecidableEq

def NetworkConfig.exclude (c : NetworkConfig) (ns : String) : NetworkConfig :=
  if c.excluded.contains ns then c else { c with excluded := c.excluded ++ [ns] }

end LedgerSchema
