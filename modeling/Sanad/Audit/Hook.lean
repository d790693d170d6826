import Sanad.Audit.Chain
import Sanad.Gateway

/-! # The record of a decision

`audit/hook.go` and `investigate.go`: what is recorded of each decision of the gateway, and how an action
is found again by the id of its passport.
-/

namespace Sanad.Audit

open Gateway

/-! ## The hook -/

/-- `types.Effect` -/
def effectText : Effect → Bytes
  | .deny => Bytes.ascii "deny"
  | .allow => Bytes.ascii "allow"
  | .review => Bytes.ascii "review"
  | .other effect => effect

/-- `DelegationChain.Path`, nil for an absent or empty chain. -/
def delegationPath (c : Option DelegationChain) : Option (List Bytes) :=
  (c.filter fun c => c.hops.length ≠ 0).map DelegationChain.path

/-- The entry that `GatewayHook` appends, over the texts of the reasons. The two hashes are not set. -/
def gatewayHook (reasonText : Reason → Bytes) (now : ℤ) (req : Request) (allowed : Bool)
    (reason : Bytes) : Entry where
  time := now
  action := Bytes.ascii (if allowed then "allow" else "deny")
  reason := reason
  server := req.server
  principal := (req.principal.map Principal.id).getD []
  agent := (req.agent.map Agent.id).getD []
  passportID := (req.passport.map Passport.id).getD []
  delegation := delegationPath req.delegation
  decision := req.decision.map fun d => ⟨effectText d.effect, reasonText d.reason⟩
  drift := none
  prevHash := []
  hash := []

/-! ## The investigation view -/

/-- `Report` -/
structure Report where
  passportID : Bytes
  principal : Bytes
  agent : Bytes
  server : Bytes
  action : Bytes
  reason : Bytes
  delegationPath : Option (List Bytes)
  integrityOK : Bool
  deriving DecidableEq, Repr

inductive InvestigateError where
  /-- `audit: no record for passport %q` -/
  | noRecord (passportID : Bytes)
  deriving DecidableEq, Repr

/-- What is reported of an entry. -/
def report (integrityOK : Bool) (e : Entry) : Report :=
  ⟨e.passportID, e.principal, e.agent, e.server, e.action, e.reason, e.delegation, integrityOK⟩

/-- `HashChainLog.Investigate`: the first entry with the id of the passport. -/
def HashChainLog.investigate (H : Hash 32) (l : HashChainLog) (passportID : Bytes) :
    Except InvestigateError Report := do
  let e ← Except.ofOption (l.entries.find? fun e => e.passportID = passportID) (.noRecord passportID)
  .ok (report (verifyChain H l.entries = .ok ()) e)

/-- `HashChainLog.ByPrincipal` -/
def HashChainLog.byPrincipal (l : HashChainLog) (principalID : Bytes) : List Entry :=
  l.entries.filter fun e => e.principal = principalID

end Sanad.Audit
