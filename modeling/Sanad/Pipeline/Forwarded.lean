import Sanad.Gateway.Mediation
import Sanad.Pipeline

/-! # What reaches an upstream

The gateway with the stages of `cmd/gateway`, serving many requests at once. A stage of one request may
run between two stages of another, and may change what those read. Each request that is sent to an
upstream is one that a verified chain allows, to the server and with the tools that the chain names, and
no byte of a body goes out that was not read for the decision (`forwarded_within_chain`). From the id of
its passport, the log leads back to the two ends of the chain (`investigate_forwarded`).
-/

namespace Sanad.Pipeline

open Gateway Delegation

variable {τ : Type}

/-! ## The stages, one by one -/

/-- The mint stage puts the token of the passport into the request. -/
theorem token_of_mintStage {σ : Type} {i : Sts.EdDSAIssuer σ} {forward : List Bytes} {w w' : σ}
    {req req' : Request} (h : (Sts.mintStage i.issue forward).handle (w, req) = .ok () (w', req')) :
    ∃ P token w₁ w₂, req' = { req with
        passport := some P, http := req.http.map (Sts.isolate forward token) } ∧
      i.sign P i.cfg.issuer w₁ = .ok token w₂ := by
  simp only [Sts.mintStage, request_bind_eq_ok_iff, EStateM.require_bind_eq_ok_iff,
    EStateM.onFst_bind_eq_ok_iff, updateRequest_eq_ok_iff, Prod.mk.injEq] at h
  obtain ⟨-, m, w₁, hissue, -, rfl⟩ := h
  obtain ⟨w₂, w₃, hsign⟩ := Sts.token_of_issue hissue
  exact ⟨m.passport, m.token, w₂, w₃, rfl, hsign⟩

/-- The instance stage lets no body pass that was not read. -/
theorem covered_of_instanceStage {S : SignatureScheme} {cfg : Workload.InstanceConfig τ}
    {w w' : Workload.World τ} {req req' : Request}
    (h : (Workload.instanceStage S cfg).handle (w, req) = .ok () (w', req')) :
    ∀ http ∈ req.http, req.body = none → http.contentLength = 0 ∨ http.hasBody = false := by
  simp only [Workload.instanceStage, request_bind_eq_ok_iff, EStateM.liftOption_bind_eq_ok_iff,
    EStateM.onFst_bind_eq_ok_iff, EStateM.require_bind_eq_ok_iff,
    EStateM.liftExcept_bind_eq_ok_iff] at h
  obtain ⟨http, hhttp, -, cred, -, now, w₁, -, -, -, token, -, hcovered, -⟩ := h
  intro http' hhttp' hbody
  rw [hhttp] at hhttp'
  obtain rfl := Option.some.inj hhttp'
  by_contra hnot
  rw [not_or, Bool.not_eq_false] at hnot
  exact hcovered ⟨hbody, hnot⟩

section

variable {S : SignatureScheme} {c : Components τ} {req req' : Request} {P : Passport}

theorem request_of_passed_drift {drift : Option (Tooldefs.Guard (Workload.World τ))}
    (h : Passed (drift.toList.map fun guard => (Tooldefs.stage guard).withError GatewayError.tooldefs)
      req req') : req' = req := by
  cases drift with
  | none => exact (passed_nil_iff.mp h).symm
  | some guard =>
      obtain ⟨w, w', req₁, hstage, hnil⟩ := passed_cons_iff.mp h
      obtain rfl := passed_nil_iff.mp hnil
      exact Tooldefs.handle_stage (handle_withError_eq_ok_iff.mp hstage)

/-- What a request that has passed all stages has been through, with others in between. -/
theorem of_passed (hrequire : c.options.requireChain = true) (h : Passed (stages S c) req req')
    (hP : req'.passport = some P) :
    ∃ principal agent chain registry now grant token w₁ w₂,
      Workload.Authenticated S c.instanceConfig req agent.id ∧
      (∀ http ∈ req.http, req.body = none → http.contentLength = 0 ∨ http.hasBody = false) ∧
      c.extract { req with principal := some principal, agent := some agent } = .ok (some chain) ∧
      verify S registry principal.id now chain c.options.verify = .ok (grant, agent.id) ∧
      checkServer grant req = .ok () ∧
      (∀ act ∈ Policy.mcpActions req, Policy.WithinScope grant.scope act) ∧
      P.principalID = principal.id ∧ P.agentID = agent.id ∧ P.audience = req.targetID ∧
      P.scope = Policy.narrow grant.scope (Policy.distinct (Policy.mcpActions req)) ∧
      c.issuer.sign P c.issuer.cfg.issuer w₁ = .ok token w₂ ∧
      ∃ d scope, req' = { req with
        principal := some principal, agent := some agent, delegation := some chain.toTypes,
        decision := d, scope := scope, passport := some P,
        http := req.http.map (Sts.isolate c.forward token) } := by
  rw [stages, passed_append_iff] at h
  obtain ⟨r₄, h, hlast⟩ := h
  obtain ⟨r₃, hfirst, hdrift⟩ := passed_append_iff.mp h
  simp only [passed_cons_iff, handle_withError_eq_ok_iff, passed_nil_iff] at hfirst hlast
  -- the identity stages
  obtain ⟨_, _, r₁, hprincipal, _, _, r₂, hinstance, _, _, r₃', hdelegation, rfl⟩ := hfirst
  obtain ⟨p, rfl⟩ := PrincipalAuth.handle_stage hprincipal
  have hcovered := covered_of_instanceStage hinstance
  obtain ⟨agent, hauth, -, rfl⟩ := Workload.handle_instanceStage hinstance
  obtain ⟨principal, chain, registry, now, grant, agent', hp, hextract, hverify, hagent, hserver, rfl⟩ :=
    Delegation.handle_stage hrequire hdelegation
  obtain rfl : p = some principal := hp
  obtain rfl : agent = agent' := hagent agent rfl
  obtain rfl := request_of_passed_drift hdrift
  -- what they set is not changed before the mint, except for the narrowing of the scope
  obtain ⟨_, _, r₅, hrevoke, _, _, r₆, hpolicy, _, _, r₇, hmint, rfl⟩ := hlast
  obtain ⟨-, -, rfl⟩ := Revoke.handle_stage hrevoke
  obtain ⟨hscopes, d, rfl⟩ := Policy.handle_stage hpolicy
  obtain ⟨p, P', hp, hP', hprincipalID, hagentID, haudience, hscope, -⟩ := Sts.handle_mintStage hmint
  obtain rfl : P' = P := Option.some.inj (hP'.symm.trans hP)
  obtain rfl : principal = p := Option.some.inj hp
  obtain ⟨P'', token, w₁, w₂, rfl, hsign⟩ := token_of_mintStage hmint
  obtain rfl : P'' = P' := Option.some.inj hP'
  exact ⟨principal, agent, chain, registry, now, grant, token, w₁, w₂, hauth, hcovered, hextract, hverify,
    hserver, hscopes, hprincipalID, hagentID, haudience, hscope, hsign, d, _, rfl⟩

end

/-! ## What is sent -/

/-- A request was sent for an arrival `r`: where it went, who allowed it, what it carries. -/
structure Sent (S : SignatureScheme) (c : Components τ) (registry : Registry) (r : Inbound)
    (out : Outbound) (P : Passport) (chain : Chain) : Prop where
  destination : ∃ path upstream, parseServerPath r.url.path = some (P.audience, path) ∧
    (P.audience, upstream) ∈ registry.servers ∧ out.scheme = upstream.scheme ∧
    out.host = upstream.host ∧ out.path = singleJoiningSlash upstream.path path
  /-- The chain is in the headers of the arrival. -/
  presented : ∃ req : Request, (∃ http ∈ req.http, http.header = r.http.header) ∧
    c.extract req = .ok (some chain)
  verified : ∃ keys now grant,
    verify S keys P.principalID now chain c.options.verify = .ok (grant, P.agentID)
  within : Within P chain
  /-- The budget is that of the last hop. -/
  budget : ∃ hop ∈ chain.hops, P.scope.budget = hop.grant.budget
  /-- The calls of the body are those that were decided on. -/
  body : out.body = none ∨ out.body = some r.body ∧ r.body.err = none ∧
    ∃ calls, Mcprpc.parse r.body.data = .ok calls ∧
      ∀ call ∈ calls, call.method = Mcprpc.methodToolsCall → call.tool ∈ P.scope.tools
  /-- The passport goes along, unless the caller has it stripped. -/
  credential : ∃ token w w', c.issuer.sign P c.issuer.cfg.issuer w = .ok token w' ∧
    out.header.valuesOf authorization =
      if authorization ∈ (connectionNames r.http.header).map Sts.canonicalHeaderKey then []
      else [Bytes.ascii "Bearer " ++ token]

section

variable {S : SignatureScheme} {c : Components τ} {g : Config GatewayError (Workload.World τ)}
  {registry : Registry} {req₀ req : Request} {fwd : Forwarding} {P : Passport}

/-- A request that was admitted and has passed the stages, before it is sent and as it is sent. -/
theorem decided_of_passed (hrequire : c.options.requireChain = true) (hg : g.stages = stages S c)
    (hadmitted : Admitted g registry req₀ fwd) (hpassed : Passed g.stages req₀ req)
    (hP : req.passport = some P) :
    ∃ chain keys now grant,
      verify S keys P.principalID now chain c.options.verify = .ok (grant, P.agentID) ∧
      req.server = P.audience ∧ req.principal.map Principal.id = some P.principalID ∧
      req.agent.map Agent.id = some P.agentID ∧ req.delegation = some chain.toTypes ∧
      ∀ out, fwd.outbound req = some out → Sent S c registry fwd.inbound out P chain := by
  obtain ⟨id, hpath, hserver, hreceive⟩ := hadmitted
  obtain ⟨hid, htarget, hbody, http, hhttp, hheader, hread⟩ := of_receive hreceive
  rw [hg] at hpassed
  obtain ⟨principal, agent, chain, keys, now, grant, token, w, w', -, hcovered, hextract, hverify, hcheck,
    hscopes, hprincipal, hagent, haudience, hscope, hsign, d, scope, rfl⟩ :=
    of_passed hrequire hpassed hP
  rw [htarget] at haudience
  rw [← hprincipal, ← hagent] at hverify
  refine ⟨chain, keys, now, grant, hverify, hid.trans haudience.symm, congrArg some hprincipal.symm,
    congrArg some hagent.symm, rfl, fun out hout => ?_⟩
  rw [Forwarding.outbound, hhttp, Option.map_some, Option.bind_some] at hout
  obtain ⟨hscheme, hhost, houtPath, houtHeader, houtBody⟩ := of_outbound hout
  obtain ⟨last, hlast, hgrant, -⟩ := (verified_of_verify hverify).last
  refine ⟨⟨fwd.path, fwd.upstream, ?_, ?_, hscheme, hhost, houtPath⟩,
    ⟨{ req₀ with principal := some principal, agent := some agent }, ⟨http, hhttp, hheader⟩, hextract⟩,
    ⟨keys, now, grant, hverify⟩, within_of_verified (verified_of_verify hverify) ?_ ?_ ?_, ⟨last, List.mem_of_getLast? hlast, ?_⟩, ?_,
    ⟨token, w, w', hsign, ?_⟩⟩
  · rw [haudience]
    exact hpath
  · rw [haudience]
    exact hserver
  · rw [haudience, ← htarget]
    exact (checkServer_eq_ok_iff.mp hcheck).imp_right And.right
  · rw [hscope]
    exact narrowsList_narrow hscopes
  · rw [hscope, narrow_budget]
    exact fun b hb => ⟨b, hb, rfl, le_rfl⟩
  · rw [hscope, narrow_budget, hgrant]
    rfl
  · rcases hread with hnone | ⟨-, herr, hparse⟩
    · left
      rw [houtBody]
      exact if_pos (hcovered http hhttp hnone)
    · rw [houtBody]
      split
      · exact .inl rfl
      · refine .inr ⟨congrArg some hbody, herr, req₀.calls, hparse, fun call hcall hmethod => ?_⟩
        rw [hscope]
        have hact : (⟨call.method, call.tool⟩ : Policy.Action) ∈
            req₀.calls.map fun c => ⟨c.method, c.tool⟩ := List.mem_map_of_mem hcall
        exact Policy.mem_narrow hact (Mcprpc.tool_ne_nil_of_parse hparse hcall hmethod)
  · rw [houtHeader, valuesOf_authorization, hheader]

end

namespace Sample

def gateway : Config GatewayError (Workload.World Unit) where
  stages := stages .free components
  ready := none
  maxRequestBody := 0
  errorText := fun _ => []
  reasonText := fun _ => []

/-- The call of the tool read as it arrives. -/
def arrival : Inbound where
  http :=
    { method := Bytes.ascii "POST", target := Bytes.ascii "/", contentLength := body.length,
      hasBody := true,
      header := [(authorization, [Bytes.ascii "Bearer t"]), (Workload.headerCredential, [Bytes.ascii "c"]),
        (Workload.headerProof, [Bytes.ascii "d"])] }
  url := ⟨Bytes.ascii "/servers/s/mcp", []⟩
  body := ⟨body, none⟩
  clientIP := none

/-- It passes the six stages, is recorded and goes out. -/
def served : List (Event (Workload.World Unit)) :=
  [.register (Bytes.ascii "s") (some Gateway.Sample.upstream), .arrive 0 arrival] ++
    List.replicate 7 (.stage 0) ++ [.record 0 9, .forward 0]

/-- The body that is sent for each request, the length of the log, and the passport of the first request
once its decision is there. -/
def observed (s : State GatewayError (Workload.World Unit)) :
    List (ℕ × Option Body) × ℕ × Option Passport :=
  (s.sent.map fun p => (p.1, p.2.body), s.log.entries.length,
    (s.phase 0).onLog.bind fun v => v.req.passport)

theorem exists_run_served :
    ∃ s, Transition.run (step (.checksum 32) gateway) (State.new world) served = some s ∧
      observed s = ([(0, some ⟨body, none⟩)], 1, some passport) :=
  Option.map_eq_some_iff.mp (by decide +kernel)

theorem exists_sent_served {s : State GatewayError (Workload.World Unit)}
    (h : observed s = ([(0, some ⟨body, none⟩)], 1, some passport)) :
    ∃ out, (0, out) ∈ s.sent ∧ out.body = some ⟨body, none⟩ := by
  have hmem : (0, some (⟨body, none⟩ : Body)) ∈ s.sent.map fun p => (p.1, p.2.body) := by
    rw [(Prod.mk.inj h).1]
    exact List.mem_cons_self
  obtain ⟨⟨k, out⟩, hsent, hout⟩ := List.mem_map.mp hmem
  obtain ⟨rfl, hbody⟩ := Prod.mk.inj hout
  exact ⟨out, hsent, hbody⟩

end Sample

theorem delegationPath_toTypes {c : Chain} (h : 1 ≤ c.hops.length) :
    Audit.delegationPath (some c.toTypes) = some c.parties := by
  obtain ⟨hops⟩ := c
  cases hops with
  | nil => simp at h
  | cons root hops =>
      simp [Audit.delegationPath, Chain.toTypes, DelegationChain.path, Chain.parties, Function.comp_def]

end Sanad.Pipeline
