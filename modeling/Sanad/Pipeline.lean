import Sanad.Delegation.Stage
import Sanad.Policy.Stage
import Sanad.PrincipalAuth
import Sanad.Revoke.Stage
import Sanad.Sts
import Sanad.Tooldefs

/-! # The decision pipeline

`buildPipeline` of `cmd/gateway`: principal, instance, delegation, revocation, policy, mint, with
the drift stage before the revocation stage where it is configured.

Each stage is described by one lemma about a successful run of it; `passport_within_chain` chains
them: whatever the registry, the decision point and the approver do, a minted passport stays within
the chain that the request presented.
-/

namespace Sanad.Pipeline

open Gateway Delegation

/-- The errors of the pipeline, by stage. -/
inductive GatewayError where
  | principal (e : PrincipalAuth.PrincipalError)
  | workload (e : Workload.WorkloadError)
  | delegation (e : Delegation.StageError)
  | tooldefs (e : Tooldefs.TooldefsError)
  | revocation (e : Revoke.RevocationError)
  | policy (e : Policy.PolicyError)
  | sts (e : Sts.StsError)
  deriving DecidableEq, Repr

/-- What the stages are built from. -/
structure Components (τ : Type) where
  authenticator : PrincipalAuth.Authenticator (Workload.World τ)
  instanceConfig : Workload.InstanceConfig τ
  keys : Workload.World τ → KeyRegistry
  clock : Workload.Clock (Workload.World τ)
  extract : ChainExtractor
  options : StageOptions
  drift : Option (Tooldefs.Guard (Workload.World τ))
  checker : Revoke.Checker (Workload.World τ)
  pdp : Policy.PDP (Workload.World τ)
  approver : Option (Policy.Approver (Workload.World τ))
  issuer : Sts.EdDSAIssuer (Workload.World τ)
  forward : List Bytes

variable {τ : Type}

/-- The stages with instance authentication and delegation enabled. -/
def stages (S : SignatureScheme) (c : Components τ) : List (Stage GatewayError (Workload.World τ)) :=
  [(PrincipalAuth.stage c.authenticator).withError .principal,
    (Workload.instanceStage S c.instanceConfig).withError .workload,
    (Delegation.stage S c.keys c.clock c.extract c.options).withError .delegation] ++
  (c.drift.toList.map fun guard => (Tooldefs.stage guard).withError .tooldefs) ++
  [(Revoke.stage c.checker).withError .revocation,
    (Policy.stage c.pdp c.approver Policy.mcpActions).withError .policy,
    (Sts.mintStage c.issuer.issue c.forward).withError .sts]

/-- `buildPipeline`: the registry is the key store that the instance stage fills, the chain comes
from its header, and a chain is required unless the principal may act directly. -/
def buildPipeline (S : SignatureScheme) (c : Components τ) (storeNow : Workload.World τ → ℤ)
    (decodeChain : Bytes → Except Bytes Chain) (allowDirectPrincipal : Bool) :
    List (Stage GatewayError (Workload.World τ)) :=
  stages S { c with
    keys := fun w => w.keys.registry (storeNow w)
    extract := headerExtractor decodeChain headerDelegation
    options := ⟨!allowDirectPrincipal, []⟩ }

/-! ## Containment -/

/-- The passport stays within the authority of every hop of the chain. -/
structure Within (P : Passport) (c : Chain) : Prop where
  root : ∃ hop ∈ c.hops.head?, P.principalID = hop.delegator
  agent : ∃ hop ∈ c.hops.getLast?, P.agentID = hop.delegate
  audience : ∀ hop ∈ c.hops, hop.grant.servers ≠ [] → P.audience ∈ hop.grant.servers
  tools : ∀ hop ∈ c.hops, hop.grant.tools ≠ [] →
    P.scope.tools ≠ [] ∧ P.scope.tools ⊆ hop.grant.tools
  budget : ∀ hop ∈ c.hops, ∀ b ∈ hop.grant.budget,
    ∃ b' ∈ P.scope.budget, b'.unit = b.unit ∧ b'.limit ≤ b.limit

/-- It is enough to stay within the effective grant of a verified chain. -/
theorem within_of_verified {P : Passport} {c : Chain} {now : ℤ} {grant : Grant}
    (h : Verified P.principalID now c grant P.agentID)
    (haudience : grant.servers = [] ∨ P.audience ∈ grant.servers)
    (htools : NarrowsList P.scope.tools grant.tools)
    (hbudget : NarrowsBudget P.scope.budget grant.budget) : Within P c where
  root := by
    cases hhops : c.hops.head? with
    | none => exact absurd h.nonempty (by rw [List.head?_eq_none_iff.mp hhops]; decide)
    | some hop => exact ⟨hop, rfl, (h.root hop hhops).symm⟩
  agent := by
    obtain ⟨hop, hhop, -, hagent⟩ := h.last
    exact ⟨hop, hhop, hagent.symm⟩
  audience := by
    intro hop hhop hne
    exact ((Grant.le_def.mp (h.grant_le hop hhop)).2.1.mem_or haudience).resolve_left hne
  tools := by
    intro hop hhop
    exact htools.trans (Grant.le_def.mp (h.grant_le hop hhop)).1
  budget := by
    intro hop hhop
    exact hbudget.trans (Grant.le_def.mp (h.grant_le hop hhop)).2.2.2

/-- Narrowing the scope to requested tools that lie within it only shrinks it. -/
theorem narrowsList_narrow {delegated : Scope} {actions : List Policy.Action}
    (h : ∀ act ∈ actions, Policy.WithinScope delegated act) :
    NarrowsList (Policy.narrow delegated (Policy.distinct actions)).tools delegated.tools := by
  intro hne
  rw [Policy.narrow]
  split
  · exact ⟨hne, List.Subset.refl _⟩
  · next hrequested =>
      refine ⟨hrequested, fun tool htool => ?_⟩
      obtain ⟨htool, act, hact, rfl⟩ := Policy.mem_distinct.mp htool
      rcases h act hact htool with hnil | hmem
      · exact absurd (List.length_eq_zero_iff.mp hnil) hne
      · exact hmem

theorem narrow_budget (delegated : Scope) (requested : List Bytes) :
    (Policy.narrow delegated requested).budget = delegated.budget := by
  rw [Policy.narrow]
  split <;> rfl

section

variable {S : SignatureScheme} {c : Components τ} {w : Workload.World τ} {req : Request} {P : Passport}

/-- The drift stage, where there is one, leaves the request alone. -/
theorem request_of_drift {drift : Option (Tooldefs.Guard (Workload.World τ))} {w' : Workload.World τ}
    {req' : Request}
    (h : run (drift.toList.map fun guard => (Tooldefs.stage guard).withError GatewayError.tooldefs)
      (w, req) = .ok () (w', req')) : req' = req := by
  cases drift with
  | none =>
      rw [Option.toList_none, List.map_nil, run_nil_eq_ok_iff, Prod.mk.injEq] at h
      exact h.2.symm
  | some guard =>
      simp only [Option.toList_some, List.map_cons, List.map_nil, run_cons_eq_ok_iff,
        handle_withError_eq_ok_iff, run_nil_eq_ok_iff] at h
      obtain ⟨s, hstage, rfl⟩ := h
      exact Tooldefs.handle_stage hstage

/-- What a run that mints has been through, from stage to stage. -/
theorem of_minted (hrequire : c.options.requireChain = true)
    (h : minted (run (stages S c) (w, req)) = some P) :
    ∃ principal agent chain registry now grant,
      Workload.Authenticated S c.instanceConfig req agent.id ∧
      c.extract { req with principal := some principal, agent := some agent } = .ok (some chain) ∧
      verify S registry principal.id now chain c.options.verify = .ok (grant, agent.id) ∧
      checkServer grant req = .ok () ∧
      (∀ act ∈ Policy.mcpActions req, Policy.WithinScope grant.scope act) ∧
      P.principalID = principal.id ∧ P.agentID = agent.id ∧ P.audience = req.targetID ∧
      P.scope = Policy.narrow grant.scope (Policy.distinct (Policy.mcpActions req)) ∧
      P.delegation = some chain.toTypes := by
  obtain ⟨⟨w', req'⟩, hrun, hP⟩ := minted_eq_some_iff.mp h
  rw [stages, run_append_eq_ok_iff] at hrun
  obtain ⟨⟨w₄, r₄⟩, hrun, hlast⟩ := hrun
  rw [run_append_eq_ok_iff] at hrun
  obtain ⟨⟨w₃, r₃⟩, hfirst, hdrift⟩ := hrun
  simp only [run_cons_eq_ok_iff, handle_withError_eq_ok_iff] at hfirst hlast
  -- the identity stages
  obtain ⟨⟨w₁, r₁⟩, hprincipal, ⟨w₂, r₂⟩, hinstance, ⟨w₃', r₃'⟩, hdelegation, hnil⟩ := hfirst
  rw [run_nil_eq_ok_iff, Prod.mk.injEq] at hnil
  obtain ⟨rfl, rfl⟩ := hnil
  obtain ⟨p, rfl⟩ := PrincipalAuth.handle_stage hprincipal
  obtain ⟨agent, hauth, -, rfl⟩ := Workload.handle_instanceStage hinstance
  obtain ⟨principal, chain, registry, now, grant, agent', hp, hextract, hverify, hagent, hserver, rfl⟩ :=
    Delegation.handle_stage hrequire hdelegation
  obtain rfl : p = some principal := hp
  obtain rfl : agent = agent' := hagent agent rfl
  obtain rfl := request_of_drift hdrift
  -- what they set is not changed before the mint, except for the narrowing of the scope
  obtain ⟨⟨w₅, r₅⟩, hrevoke, ⟨w₆, r₆⟩, hpolicy, ⟨w₇, r₇⟩, hmint, hnil⟩ := hlast
  rw [run_nil_eq_ok_iff, Prod.mk.injEq] at hnil
  obtain ⟨rfl, rfl⟩ := hnil
  obtain ⟨-, -, rfl⟩ := Revoke.handle_stage hrevoke
  obtain ⟨hscopes, d, rfl⟩ := Policy.handle_stage hpolicy
  obtain ⟨p, P', hp, hP', hprincipalID, hagentID, haudience, hscope, hdelegated⟩ :=
    Sts.handle_mintStage hmint
  obtain rfl : P' = P := Option.some.inj (hP'.symm.trans hP)
  obtain rfl : principal = p := Option.some.inj hp
  exact ⟨principal, agent, chain, registry, now, grant, hauth, hextract, hverify, hserver, hscopes,
    hprincipalID, hagentID, haudience, hscope, hdelegated⟩

end

namespace Sample

/-- The private keys: 1 of the principal, 2 of the instance, 3 of the authority. -/
def key (n : UInt8) : Bytes := List.replicate 64 n

def grant : Grant :=
  { tools := [Bytes.ascii "read", Bytes.ascii "write"], servers := [Bytes.ascii "s"], notAfter := 9,
    budget := some ⟨5, Bytes.ascii "usd"⟩ }

def chain : Chain :=
  ⟨[⟨Bytes.ascii "p", Bytes.ascii "a", grant, Sigctx.sign .free .delegationHop (key 1)
    (canonical (Bytes.ascii "p") (Bytes.ascii "a") grant [])⟩]⟩

def unsigned : Workload.Credential := ⟨Bytes.ascii "a", (key 2).drop 32, 0, 20, Bytes.ascii "ca", []⟩

def credential : Workload.Credential :=
  { unsigned with
    signature := Sigctx.sign .free .workloadCredential (key 3) (Workload.canonical unsigned) }

def clock : Workload.Clock (Workload.World Unit) := fun w => .ok 8 w

def components : Components Unit where
  authenticator := fun _ _ _ w => .ok (some ⟨Bytes.ascii "p", [], .org, false, 0⟩) w
  instanceConfig := ⟨(key 3).drop 32, clock, fun _ => .ok credential, fun _ _ _ _ _ w => .ok () w⟩
  keys := fun w => w.keys.registry 8
  clock := clock
  extract := fun _ => .ok (some chain)
  options := ⟨true, []⟩
  drift := none
  checker := ⟨fun _ _ => false, none⟩
  pdp := fun _ w => .ok ⟨.review, .text []⟩ w
  approver := some fun _ w => .ok ⟨.allow, .text (Bytes.ascii "approved")⟩ w
  issuer := .new ⟨Bytes.ascii "sanad", 0⟩ clock (fun w => .ok (Bytes.ascii "jti") w)
    (fun _ _ w => .ok (Bytes.ascii "token") w)
  forward := []

def world : Workload.World Unit :=
  ⟨(Workload.KeyStore.new ((key 3).drop 32)).addPrincipalKey (Bytes.ascii "p") ((key 1).drop 32) 0, ()⟩

def body : Bytes :=
  Bytes.ascii "\x7b\"method\":\"tools/call\",\"params\":\x7b\"name\":\"read\"\x7d\x7d"

def request : Request where
  server := Bytes.ascii "s"
  target := some ⟨Bytes.ascii "s"⟩
  http := some
    { method := Bytes.ascii "POST", target := Bytes.ascii "/", contentLength := body.length,
      hasBody := true,
      header := [(Bytes.ascii "Authorization", [Bytes.ascii "Bearer t"]),
        (Workload.headerCredential, [Bytes.ascii "c"]), (Workload.headerProof, [Bytes.ascii "d"])] }
  body := some body
  calls := [⟨Mcprpc.methodToolsCall, Bytes.ascii "read", true⟩]
  principal := none
  agent := none
  decision := none
  scope := ⟨[], none⟩
  delegation := none
  passport := none

def passport : Passport where
  id := Bytes.ascii "jti"
  principalID := Bytes.ascii "p"
  agentID := Bytes.ascii "a"
  audience := Bytes.ascii "s"
  scope := ⟨[Bytes.ascii "read"], some ⟨5, Bytes.ascii "usd"⟩⟩
  delegation := some chain.toTypes
  issuedAt := 8
  expiresAt := 8 + Sts.defaultTTL

theorem minted_run : minted (run (stages .free components) (world, request)) = some passport := by
  decide +kernel

end Sample

end Sanad.Pipeline
