/-
  Spectty.Core.Provisioning

  The vocabulary of the provisioning port: where an agent's configuration is
  provisioned, the handle that retracts it, and what can go wrong.
-/

namespace Spectty.Core

/-- A failure while injecting or retracting. -/
inductive ProvisioningError where
  | io (msg : String)
  | parse (msg : String)
deriving DecidableEq, Repr

/-- The text of an error. -/
def ProvisioningError.message : ProvisioningError → String
  | .io msg => "provisioning io error: " ++ msg
  | .parse msg => "config parse error: " ++ msg

/-- Where to inject: the user's configuration, or that of the repository at
    `root`. -/
inductive ProvisioningScope where
  | global
  | project (root : String)
deriving DecidableEq, Repr

/-- What an injection answers: the scope to retract from. -/
structure ProvisioningHandle where
  scope : ProvisioningScope
deriving DecidableEq, Repr

end Spectty.Core
