import Sanad.Pipeline

/-! # Revoked parties of a chain

The revocation stage looks at the principal and the agent of the request, which are the two ends of
the chain that the delegation stage has verified. A delegate in between is not looked up.
-/

namespace Sanad.Pipeline

open Gateway Delegation

variable {τ : Type}

/-- The first two stages: who the principal is, and which instance calls. -/
def callerStages (S : SignatureScheme) (c : Components τ) :
    List (Stage GatewayError (Workload.World τ)) :=
  [(PrincipalAuth.stage c.authenticator).withError .principal,
    (Workload.instanceStage S c.instanceConfig).withError .workload]

/-- The stages between the delegation stage and the revocation stage. -/
def driftStages (c : Components τ) : List (Stage GatewayError (Workload.World τ)) :=
  c.drift.toList.map fun guard => (Tooldefs.stage guard).withError .tooldefs

/-- The request passes the stages before the revocation stage, which it reaches as `req'` in the world
`w'`, and the delegation stage has verified the chain. -/
def Arrives (S : SignatureScheme) (c : Components τ) (w : Workload.World τ) (req : Request)
    (chain : Chain) (w' : Workload.World τ) (req' : Request) : Prop :=
  ∃ w₁ r₁ w₂ r₂, run (callerStages S c) (w, req) = .ok () (w₁, r₁) ∧
    c.extract r₁ = .ok (some chain) ∧
    (Delegation.stage S c.keys c.clock c.extract c.options).handle (w₁, r₁) = .ok () (w₂, r₂) ∧
    run (driftStages c) (w₂, r₂) = .ok () (w', req')

section

variable {S : SignatureScheme} {c : Components τ} {w w' : Workload.World τ} {req req' : Request}
  {chain : Chain}

/-- The ends of a verified chain are the principal and the acting agent. -/
theorem ends_of_verify {keys : KeyRegistry} {principalID agentID : Bytes} {now : ℤ} {g : Grant}
    {opts : List VerifyOption} (h : verify S keys principalID now chain opts = .ok (g, agentID)) :
    chain.parties.head? = some principalID ∧ chain.parties.getLast? = some agentID := by
  have hverified := verified_of_verify h
  obtain ⟨last, hlast, -, hagent⟩ := hverified.last
  rw [Chain.parties]
  cases hhops : chain.hops with
  | nil =>
      rw [hhops] at hlast
      cases hlast
  | cons root hops =>
      have hroot := hverified.root root (by rw [hhops]; rfl)
      rw [hhops] at hlast
      refine ⟨congrArg some hroot, ?_⟩
      show (root.delegator :: (root :: hops).map Hop.delegate).getLast? = some agentID
      rw [List.getLast?_cons, List.getLast?_map, Option.mem_def.mp hlast, ← hagent]
      rfl

/-- At the revocation stage, the request's principal and agent are the ends of the chain. -/
theorem Arrives.ends (h : Arrives S c w req chain w' req') :
    ∃ p agent, req'.principal = some p ∧ req'.agent = some agent ∧ agent.blueprintID = [] ∧
      chain.parties.head? = some p.id ∧ chain.parties.getLast? = some agent.id := by
  obtain ⟨w₁, r₁, w₂, r₂, hcaller, hextract, hdelegation, hdrift⟩ := h
  simp only [callerStages, run_cons_eq_ok_iff, handle_withError_eq_ok_iff, run_nil_eq_ok_iff]
    at hcaller
  obtain ⟨⟨w₃, r₃⟩, -, ⟨w₄, r₄⟩, hinstance, hnil⟩ := hcaller
  cases hnil
  obtain ⟨instanceAgent, -, hblueprint, rfl⟩ := Workload.handle_instanceStage hinstance
  obtain ⟨p, registry, now, grant, agent, hp, hverify, hagent, -, rfl⟩ :=
    handle_presented hextract hdelegation
  obtain rfl := hagent instanceAgent rfl
  obtain rfl := request_of_drift hdrift
  exact ⟨p, instanceAgent, hp, rfl, hblueprint, ends_of_verify hverify⟩

/-- A request gets as far as the revocation stage if the stages before let it pass. -/
theorem arrives_of_run (hextract : ∀ r, c.extract r = .ok (some chain))
    (hrun : run (callerStages S c ++
      ((Delegation.stage S c.keys c.clock c.extract c.options).withError .delegation ::
        driftStages c)) (w, req) = .ok () (w', req')) : Arrives S c w req chain w' req' := by
  rw [run_append_eq_ok_iff] at hrun
  obtain ⟨⟨w₁, r₁⟩, hcaller, hrun⟩ := hrun
  rw [run_cons_eq_ok_iff] at hrun
  obtain ⟨⟨w₂, r₂⟩, hdelegation, hdrift⟩ := hrun
  exact ⟨w₁, r₁, w₂, r₂, hcaller, hextract r₁, handle_withError_eq_ok_iff.mp hdelegation, hdrift⟩

/-- A run of all stages takes such a request through the revocation stage. -/
theorem Arrives.handle_revoke (h : Arrives S c w req chain w' req') {s : Workload.World τ × Request}
    (hrun : run (stages S c) (w, req) = .ok () s) :
    ∃ s₁, (Revoke.stage c.checker).handle (w', req') = .ok () s₁ := by
  obtain ⟨w₁, r₁, w₂, r₂, hcaller, -, hdelegation, hdrift⟩ := h
  have hstages : stages S c = callerStages S c ++
      ((Delegation.stage S c.keys c.clock c.extract c.options).withError .delegation ::
        (driftStages c ++ [(Revoke.stage c.checker).withError .revocation,
          (Policy.stage c.pdp c.approver Policy.mcpActions).withError .policy,
          (Sts.mintStage c.issuer.issue c.forward).withError .sts])) := rfl
  rw [hstages, run_append_eq_ok_iff] at hrun
  obtain ⟨s₁, hcaller', hrun⟩ := hrun
  rw [hcaller] at hcaller'
  cases hcaller'
  rw [run_cons_eq_ok_iff] at hrun
  obtain ⟨s₂, hdelegation', hrun⟩ := hrun
  rw [handle_withError_eq_ok_iff, hdelegation] at hdelegation'
  cases hdelegation'
  rw [run_append_eq_ok_iff] at hrun
  obtain ⟨s₃, hdrift', hrun⟩ := hrun
  rw [hdrift] at hdrift'
  cases hdrift'
  rw [run_cons_eq_ok_iff] at hrun
  obtain ⟨s₄, hrevoke, -⟩ := hrun
  exact ⟨s₄, handle_withError_eq_ok_iff.mp hrevoke⟩

end

/-- The revocation stage stops the request. -/
def Stops (c : Components τ) (w : Workload.World τ) (req : Request) : Prop :=
  ∀ s, (Revoke.stage c.checker).handle (w, req) ≠ .ok () s

/-- The stage stops the request of a verified chain exactly if the kill-switch cannot be trusted, or
the first or the last party of the chain is on it. -/
theorem Arrives.stops_iff {S : SignatureScheme} {c : Components τ} {w w' : Workload.World τ}
    {req req' : Request} {chain : Chain} (h : Arrives S c w req chain w' req') :
    Stops c w' req' ↔ c.checker.fresh w' ≠ .ok () ∨
      ∃ id, (id ∈ chain.parties.head? ∨ id ∈ chain.parties.getLast?) ∧
        c.checker.revoked w' id = true := by
  obtain ⟨p, agent, hp, hagent, hblueprint, hhead, hlast⟩ := h.ends
  have hpasses : Stops c w' req' ↔ ¬(c.checker.fresh w' = .ok () ∧
      c.checker.revoked w' p.id = false ∧ c.checker.revoked w' agent.id = false) := by
    rw [← Revoke.checkIDs_eq_ok_iff hblueprint, ← hp, ← hagent, Stops]
    constructor
    · rintro hstops ⟨hfresh, hids⟩
      exact hstops (w', req') (Revoke.handle_stage_eq_ok_iff.mpr ⟨hfresh, hids, rfl, rfl⟩)
    · rintro hnot ⟨w₁, r₁⟩ hhandle
      obtain ⟨hfresh, hids, -, -⟩ := Revoke.handle_stage_eq_ok_iff.mp hhandle
      exact hnot ⟨hfresh, hids⟩
  rw [hpasses, hhead, hlast]
  simp only [Option.mem_some, not_and_or, Bool.not_eq_false, or_and_right, exists_or,
    exists_eq_left', ne_eq]

/-- A request that the revocation stage stops gets no passport. It is stopped whenever a party of its
verified chain is on the kill-switch, exactly if none of them is, or the kill-switch cannot be
trusted, or the first or the last of them is on it. -/
theorem revoked_party_stopped_iff (S : SignatureScheme) (c : Components τ)
    (w w' : Workload.World τ) (req req' : Request) (chain : Chain)
    (harrives : Arrives S c w req chain w' req') :
    (((∃ id ∈ chain.parties, c.checker.revoked w' id = true) → Stops c w' req') ↔
      (∀ id ∈ chain.parties, c.checker.revoked w' id = false) ∨ c.checker.fresh w' ≠ .ok () ∨
        ∃ id, (id ∈ chain.parties.head? ∨ id ∈ chain.parties.getLast?) ∧
          c.checker.revoked w' id = true) ∧
    (Stops c w' req' → minted (run (stages S c) (w, req)) = none) := by
  constructor
  · rw [← harrives.stops_iff, imp_iff_not_or]
    simp
  · intro hstops
    rw [Option.eq_none_iff_forall_ne_some]
    intro P hP
    obtain ⟨s, hrun, -⟩ := minted_eq_some_iff.mp hP
    obtain ⟨s₁, hstage⟩ := harrives.handle_revoke hrun
    exact hstops s₁ hstage

/-! The principal p delegates to the agent m, which delegates to the agent a, which calls. -/

namespace Sample

/-- The chain through m, whose key is the fourth. -/
def throughAgent : Chain :=
  let first := Sigctx.sign .free .delegationHop (key 1)
    (canonical (Bytes.ascii "p") (Bytes.ascii "m") grant [])
  ⟨[⟨Bytes.ascii "p", Bytes.ascii "m", grant, first⟩,
    ⟨Bytes.ascii "m", Bytes.ascii "a", grant, Sigctx.sign .free .delegationHop (key 4)
      (canonical (Bytes.ascii "m") (Bytes.ascii "a") grant first)⟩]⟩

/-- The components, with that chain and one id on the kill-switch. -/
def revoking (id : Bytes) : Components Unit :=
  { components with extract := fun _ => .ok (some throughAgent), checker := ⟨fun _ x => x = id, none⟩ }

/-- The world, in which the key of m is known. -/
def knowing : Workload.World Unit :=
  { world with
    keys := { world.keys with agents := [(Bytes.ascii "m", ⟨(key 4).drop 32, 0⟩)] } }

theorem revoked_revoking (id : Bytes) (w : Workload.World Unit) :
    (revoking id).checker.revoked w id = true := by
  simp [revoking]

theorem exists_arrives (id : Bytes) :
    ∃ w' req', Arrives .free (revoking id) knowing request throughAgent w' req' := by
  have hpasses : EStateM.succeeds (run (callerStages .free (revoking []) ++
      ((Delegation.stage .free (revoking []).keys (revoking []).clock (revoking []).extract
        (revoking []).options).withError .delegation :: driftStages (revoking [])))
      (knowing, request)) = true := by
    decide +kernel
  obtain ⟨⟨⟩, ⟨w', req'⟩, hrun⟩ := EStateM.succeeds_iff.mp hpasses
  exact ⟨w', req', arrives_of_run (fun _ => rfl) hrun⟩

end Sample

/-- With the acting agent on the kill-switch, nothing is minted. -/
theorem revoked_party_stopped_iff_agent :
    minted (run (stages .free (Sample.revoking (Bytes.ascii "a")))
      (Sample.knowing, Sample.request)) = none := by
  obtain ⟨w', req', harrives⟩ := Sample.exists_arrives (Bytes.ascii "a")
  have hrevoked := Sample.revoked_revoking (Bytes.ascii "a") w'
  obtain ⟨hiff, hnone⟩ := revoked_party_stopped_iff .free _ _ w' _ req' _ harrives
  exact hnone (hiff.mpr (.inr (.inr ⟨_, .inr (by decide), hrevoked⟩)) ⟨_, by decide, hrevoked⟩)

/-- With the agent in between on the kill-switch, a passport is minted for the chain through it. -/
theorem minted_through_revoked_delegate :
    Sample.throughAgent.parties = [Bytes.ascii "p", Bytes.ascii "m", Bytes.ascii "a"] ∧
      (∃ w' req', Arrives .free (Sample.revoking (Bytes.ascii "m")) Sample.knowing Sample.request
          Sample.throughAgent w' req' ∧
        (Sample.revoking (Bytes.ascii "m")).checker.revoked w' (Bytes.ascii "m") = true) ∧
      (minted (run (stages .free (Sample.revoking (Bytes.ascii "m")))
          (Sample.knowing, Sample.request))).map (fun P => (P.agentID, P.delegation)) =
        some (Bytes.ascii "a", some Sample.throughAgent.toTypes) := by
  obtain ⟨w', req', harrives⟩ := Sample.exists_arrives (Bytes.ascii "m")
  exact ⟨by decide, ⟨w', req', harrives, Sample.revoked_revoking _ _⟩, by decide +kernel⟩

end Sanad.Pipeline
