import Sanad.Workload

/-! # The delegation stage

`delegation/stage.go`: the stage that verifies the presented chain, binds it to the authenticated
instance and to the target server, and sets the scope it confers on the request.
-/

namespace Sanad.Delegation

open Gateway

/-- `Chain.ToTypes` -/
def Chain.toTypes (c : Chain) : DelegationChain :=
  ⟨c.hops.map fun h => ⟨h.delegator, h.delegate, h.grant.scope, h.signature⟩⟩

/-- `ChainExtractor`: the chain that a request presents, if any. -/
abbrev ChainExtractor := Request → Except Bytes (Option Chain)

/-- `HeaderDelegation` -/
def headerDelegation : Bytes := Bytes.ascii "X-Agent-Delegation"

/-- `HeaderExtractor`, over `DecodeChain`. A request that no HTTP request is behind is not given to
an extractor: the stages before fail on it. -/
def headerExtractor (decodeChain : Bytes → Except Bytes Chain) (header : Bytes) : ChainExtractor :=
  fun req =>
    match (req.http.map fun http => http.get header).getD [] with
    | [] => .ok none
    | v => (decodeChain v).map some

/-- `stageOptions` of `Stage`: what `WithRequireChain` and `WithVerifyOptions` set. -/
structure StageOptions where
  requireChain : Bool
  verify : List VerifyOption

/-- The errors of the stage. -/
inductive StageError where
  /-- `delegation: no authenticated principal` -/
  | noPrincipal
  /-- `delegation: %w` -/
  | extract (cause : Bytes)
  /-- `delegation: no delegation chain presented (a chain is required)` -/
  | noChain
  /-- An error of `Verify`. -/
  | verify (cause : DelegationError)
  /-- `delegation: chain ends at %q but the authenticated instance is %q` -/
  | wrongInstance (actingAgent instanceID : Bytes)
  /-- `delegation: the delegation is limited to named servers but the request has no target server` -/
  | noTarget
  /-- `delegation: the delegation grants servers %v but the request targets %q` -/
  | wrongServer (servers : List Bytes) (target : Bytes)
  deriving DecidableEq, Repr

/-- `checkServer` -/
def checkServer (g : Grant) (req : Request) : Except StageError Unit :=
  if g.servers.length = 0 then .ok ()
  else if req.targetID = [] then .error .noTarget
  else if req.targetID ∈ g.servers then .ok ()
  else .error (.wrongServer g.servers req.targetID)

section

variable {σ : Type} (S : SignatureScheme) (keys : σ → KeyRegistry) (clock : Workload.Clock σ)
  (extract : ChainExtractor) (o : StageOptions)

/-- What the stage does with a presented chain. -/
def handleChain (req : Request) (principal : Principal) (chain : Chain) : StageM StageError σ Unit := do
  let now ← EStateM.onFst Empty.elim clock
  let registry ← EStateM.read fun s => keys s.1
  let (grant, actingAgent) ←
    EStateM.liftExcept ((verify S registry principal.id now chain o.verify).mapError .verify)
  EStateM.require (∀ agent ∈ req.agent, agent.id = actingAgent)
    (.wrongInstance actingAgent ((req.agent.map Agent.id).getD []))
  EStateM.liftExcept (checkServer grant req)
  updateRequest fun r =>
    { r with
      scope := grant.scope
      delegation := some chain.toTypes
      agent := some (r.agent.getD ⟨actingAgent, principal.id, [], false, 0⟩) }

/-- `Stage` -/
def stage : Stage StageError σ where
  name := Bytes.ascii "delegation"
  handle := do
    let req ← request
    let principal ← EStateM.liftOption req.principal .noPrincipal
    let presented ← EStateM.liftExcept ((extract req).mapError .extract)
    match presented with
    | none => EStateM.require (o.requireChain = false) .noChain
    | some chain => handleChain S keys clock o req principal chain

end

/-! ## What the stage establishes -/

theorem checkServer_eq_ok_iff {g : Grant} {req : Request} :
    checkServer g req = .ok () ↔ g.servers = [] ∨ req.targetID ≠ [] ∧ req.targetID ∈ g.servers := by
  simp only [checkServer, List.length_eq_zero_iff]
  split
  · next h => simp [h]
  · next h =>
      split
      · next hnil => simp [h, hnil]
      · next hne =>
          split
          · next hmem => simp [hne, hmem]
          · next hmem => simp [h, hmem]

variable {σ : Type} {S : SignatureScheme} {keys : σ → KeyRegistry} {clock : Workload.Clock σ}
  {extract : ChainExtractor} {o : StageOptions}

/-- The request leaves the stage with the scope of the chain that it presents, which verifies, starts
at its principal, ends at its agent and covers its target. -/
theorem handle_presented {w w' : σ} {req req' : Request} {chain : Chain}
    (hpresented : extract req = .ok (some chain))
    (h : (stage S keys clock extract o).handle (w, req) = .ok () (w', req')) :
    ∃ p registry now grant agent, req.principal = some p ∧
      verify S registry p.id now chain o.verify = .ok (grant, agent.id) ∧
      (∀ a ∈ req.agent, a = agent) ∧ checkServer grant req = .ok () ∧
      req' = { req with
        scope := grant.scope, delegation := some chain.toTypes, agent := some agent } := by
  simp only [stage, request_bind_eq_ok_iff, EStateM.liftOption_bind_eq_ok_iff,
    EStateM.liftExcept_bind_eq_ok_iff, Except.mapError_eq_ok_iff, hpresented] at h
  obtain ⟨p, hp, presented, ⟨⟩, h⟩ := h
  simp only [handleChain, EStateM.onFst_bind_eq_ok_iff, EStateM.read_bind_eq_ok_iff,
    EStateM.liftExcept_bind_eq_ok_iff, EStateM.require_bind_eq_ok_iff, updateRequest_eq_ok_iff,
    Except.mapError_eq_ok_iff, Prod.mk.injEq, Prod.exists] at h
  obtain ⟨now, w₁, -, grant, actingAgent, hverify, hbound, ⟨⟩, hserver, -, rfl⟩ := h
  refine ⟨p, keys w₁, now, grant, req.agent.getD ⟨actingAgent, p.id, [], false, 0⟩, hp, ?_, ?_,
    hserver, rfl⟩
  · cases hagent : req.agent with
    | none => exact hverify
    | some a =>
        rw [Option.getD_some, hbound a (by rw [hagent]; rfl)]
        exact hverify
  · intro a ha
    rw [Option.mem_def.mp ha, Option.getD_some]

/-- With a chain required, a request that passes has presented one. -/
theorem handle_stage {w w' : σ} {req req' : Request} (hrequire : o.requireChain = true)
    (h : (stage S keys clock extract o).handle (w, req) = .ok () (w', req')) :
    ∃ p chain registry now grant agent, req.principal = some p ∧ extract req = .ok (some chain) ∧
      verify S registry p.id now chain o.verify = .ok (grant, agent.id) ∧
      (∀ a ∈ req.agent, a = agent) ∧ checkServer grant req = .ok () ∧
      req' = { req with
        scope := grant.scope, delegation := some chain.toTypes, agent := some agent } := by
  have hpresented : ∃ chain, extract req = .ok (some chain) := by
    simp only [stage, request_bind_eq_ok_iff, EStateM.liftOption_bind_eq_ok_iff,
      EStateM.liftExcept_bind_eq_ok_iff, Except.mapError_eq_ok_iff] at h
    obtain ⟨_, -, presented, hpresented, h⟩ := h
    cases presented with
    | none =>
        rw [EStateM.require_eq_ok_iff, hrequire] at h
        cases h.1
    | some chain => exact ⟨chain, hpresented⟩
  obtain ⟨chain, hpresented⟩ := hpresented
  obtain ⟨p, registry, now, grant, agent, hp, hverify, hagent, hserver, hreq⟩ :=
    handle_presented hpresented h
  exact ⟨p, chain, registry, now, grant, agent, hp, hpresented, hverify, hagent, hserver, hreq⟩

end Sanad.Delegation
