/-!
The access control rules that every business network starts with.
-/

set_option autoImplicit false

namespace LedgerSchema

structure AccessRule where
  name : String
  description : String
  participant : String
  resource : String

def AccessRule.text (rule : AccessRule) : String :=
  s!"rule {rule.name} \x7b\n" ++
    s!"    description: \"{rule.description}\"\n" ++
    s!"    participant: \"{rule.participant}\"\n" ++
    "    operation: ALL\n" ++
    s!"    resource: \"{rule.resource}\"\n" ++
    "    action: ALLOW\n\x7d\n"

def defaultRules : List AccessRule := [
  { name := "Default"
    description := "Allow all participants access to all resources"
    participant := "ANY"
    resource := "**" },
  { name := "NetworkAdminUser"
    description := "Grant business network administrators full access to user resources"
    participant := "org.hyperledger.composer.system.NetworkAdmin"
    resource := "**" },
  { name := "NetworkAdminSystem"
    description := "Grant business network administrators full access to system resources"
    participant := "org.hyperledger.composer.system.NetworkAdmin"
    resource := "org.hyperledger.composer.system.**" }]

def permissionsText : String :=
  "/**\n * Default access control list of a generated business network\n */\n\n" ++
    "\n".intercalate (defaultRules.map (·.text))

end LedgerSchema
