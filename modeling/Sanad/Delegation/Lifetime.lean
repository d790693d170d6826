import Sanad.Delegation.Stage
import Sanad.Policy.Stage
import Sanad.Sts

/-! # The lifetime of a minted passport

`delegation/stage.go`, `policy/stage.go` and `sts`: a chain's expiry is checked when the delegation
stage runs. What travels on to the issuer is the scope, which has no expiry (`Grant.scope`); the
issuer sets a lifetime of its own, from its own clock, after any time that an approver held the
request for.
-/

namespace Sanad.Delegation.Lifetime

open Gateway Sts

section

variable {σ : Type} (S : SignatureScheme) (keys : σ → KeyRegistry) (clock : Workload.Clock σ)
  (extract : ChainExtractor) (o : StageOptions) (pdp : Policy.PDP σ)
  (approver : Option (Policy.Approver σ)) (actions : Policy.ActionExtractor) (cfg : Config)
  (now : Workload.Clock σ) (newID : EStateM Bytes σ Bytes)
  (sign : Passport → Bytes → EStateM Bytes σ Bytes) (forward : List Bytes)

/-- A request that passes the delegation stage with a verified chain, then the policy stage, then the
mint stage. The world goes on between the stages. -/
structure Passage where
  req : Request
  principal : Principal
  chain : Chain
  grant : Grant
  agent : Bytes
  /-- The readings of the clocks of the delegation stage and of the issuer. -/
  checkedAt : ℤ
  mintedAt : ℤ
  /-- The request after each stage. -/
  delegated : Request
  decided : Request
  done : Request
  /-- The worlds before and after each stage, and after each reading of a clock. -/
  w₀ : σ
  w₁ : σ
  w₂ : σ
  w₃ : σ
  w₄ : σ
  w₅ : σ
  checking : σ
  minting : σ
  hprincipal : req.principal = some principal
  hextract : extract req = .ok (some chain)
  hclock : clock w₀ = .ok checkedAt checking
  hverify : verify S (keys checking) principal.id checkedAt chain o.verify = .ok (grant, agent)
  hdelegation : (Delegation.stage S keys clock extract o).handle (w₀, req) = .ok () (w₁, delegated)
  hpolicy : (Policy.stage pdp approver actions).handle (w₂, delegated) = .ok () (w₃, decided)
  hnow : now w₄ = .ok mintedAt minting
  hmint : (mintStage (EdDSAIssuer.new cfg now newID sign).issue forward).handle (w₄, decided) =
    .ok () (w₅, done)
  later : checkedAt ≤ mintedAt

variable {S keys clock extract o pdp approver actions cfg now newID sign forward}

/-- The passport expires with the delegation at the latest, and is minted before. -/
def Passage.KeepsExpiry
    (run : Passage S keys clock extract o pdp approver actions cfg now newID sign forward) : Prop :=
  ∃ P, run.done.passport = some P ∧ P.expiresAt ≤ run.grant.notAfter ∧
    P.issuedAt < run.grant.notAfter

/-- The delegation had not expired when its stage ran. The passport keeps its expiry exactly if, when
the issuer reads its clock, the delegation has the passport's whole lifetime left. -/
theorem keepsExpiry_iff
    (run : Passage S keys clock extract o pdp approver actions cfg now newID sign forward)
    (hbound : run.grant.notAfter ≠ 0) :
    run.checkedAt < run.grant.notAfter ∧
      (run.KeepsExpiry ↔
        run.mintedAt + (EdDSAIssuer.new cfg now newID sign).cfg.ttl ≤ run.grant.notAfter) := by
  constructor
  · have hv := verified_of_verify run.hverify
    obtain ⟨last, hlast, hgrant, -⟩ := hv.last
    rw [← hgrant] at hbound ⊢
    exact (hv.unexpired last (List.mem_of_getLast? hlast)).resolve_left hbound
  · obtain ⟨P, hP, hissued, hexpires⟩ := lifetime_of_mintStage run.hnow run.hmint
    have hpos := ttl_new_pos cfg now newID sign
    constructor
    · rintro ⟨P', hP', hle, -⟩
      obtain rfl : P = P' := Option.some.inj (hP.symm.trans hP')
      rwa [← hexpires]
    · intro hle
      exact ⟨P, hP, by rw [hexpires]; exact hle, by rw [hissued]; omega⟩

end

/-! A principal p that delegates to the agent a until a given time. The world is the time; every
action is reviewed, and the approver holds it for an hour. -/

namespace Sample

/-- A time in seconds. -/
def seconds (n : ℤ) : ℤ := n * Time.second

/-- The private key of the principal. -/
def key : Bytes := List.replicate 64 1

def grant (notAfter : ℤ) : Grant :=
  { tools := [Bytes.ascii "read"], servers := [], notAfter := notAfter, budget := none }

def chain (notAfter : ℤ) : Chain :=
  ⟨[⟨Bytes.ascii "p", Bytes.ascii "a", grant notAfter, Sigctx.sign .free .delegationHop key
    (canonical (Bytes.ascii "p") (Bytes.ascii "a") (grant notAfter) [])⟩]⟩

def registry : KeyRegistry where
  principalKey id := if id = Bytes.ascii "p" then some (key.drop 32) else none
  agentKey _ := none

def clock : Workload.Clock ℤ := fun w => .ok w w

def principal : Principal := ⟨Bytes.ascii "p", [], .org, false, 0⟩

/-- The request before the stages. -/
def request : Request where
  server := Bytes.ascii "s"
  target := none
  http := none
  body := none
  calls := [⟨Mcprpc.methodToolsCall, Bytes.ascii "read", true⟩]
  principal := some principal
  agent := none
  decision := none
  scope := ⟨[], none⟩
  delegation := none
  passport := none

def delegated (notAfter : ℤ) : Request :=
  { request with
    scope := (grant notAfter).scope
    delegation := some (chain notAfter).toTypes
    agent := some ⟨Bytes.ascii "a", Bytes.ascii "p", [], false, 0⟩ }

def decided (notAfter : ℤ) : Request :=
  { delegated notAfter with decision := some ⟨.allow, .text (Bytes.ascii "approved")⟩ }

/-- The request after the stages. -/
def minted (notAfter : ℤ) : Request :=
  { decided notAfter with
    passport := some
      { id := Bytes.ascii "jti"
        principalID := Bytes.ascii "p"
        agentID := Bytes.ascii "a"
        audience := Bytes.ascii "s"
        scope := ⟨[Bytes.ascii "read"], none⟩
        delegation := some (chain notAfter).toTypes
        issuedAt := 1 + seconds 3600
        expiresAt := 1 + seconds 3600 + defaultTTL } }

/-- The stages of the sample, with a chain that expires at the given time. -/
abbrev Passage (notAfter : ℤ) : Type :=
  Lifetime.Passage .free (fun _ => registry) clock (fun _ => .ok (some (chain notAfter)))
    ⟨true, []⟩ (fun _ w => .ok ⟨.review, .text []⟩ w)
    (some fun _ w => .ok ⟨.allow, .text (Bytes.ascii "approved")⟩ (w + seconds 3600))
    Policy.mcpActions ⟨Bytes.ascii "sanad", 0⟩ clock (fun w => .ok (Bytes.ascii "jti") w)
    (fun _ _ w => .ok (Bytes.ascii "token") w) []

/-- The time when the approver lets the request go. -/
def approved : ℤ := 1 + seconds 3600

/-- The passage of a chain that expires at the given time. -/
def passage (notAfter : ℤ)
    (hverify : verify .free registry (Bytes.ascii "p") 1 (chain notAfter) [] =
      .ok (grant notAfter, Bytes.ascii "a"))
    (hdelegation : (Delegation.stage .free (fun _ : ℤ => registry) clock
      (fun _ => .ok (some (chain notAfter))) ⟨true, []⟩).handle (1, request) =
        .ok () (1, delegated notAfter)) : Passage notAfter where
  req := request
  principal := principal
  chain := chain notAfter
  grant := grant notAfter
  agent := Bytes.ascii "a"
  checkedAt := 1
  mintedAt := approved
  delegated := delegated notAfter
  decided := decided notAfter
  done := minted notAfter
  w₀ := 1
  w₁ := 1
  w₂ := 1
  w₃ := approved
  w₄ := approved
  w₅ := approved
  checking := 1
  minting := approved
  hprincipal := rfl
  hextract := rfl
  hclock := rfl
  hverify := hverify
  hdelegation := hdelegation
  hpolicy := rfl
  hnow := rfl
  hmint := rfl
  later := by decide

end Sample

/-- With two hours left, the passport expires with the delegation at the latest, although the request
was held for an hour. -/
theorem keepsExpiry_iff_two_hours :
    (Sample.passage (Sample.seconds 7200) (by decide +kernel) (by decide +kernel)).KeepsExpiry :=
  (keepsExpiry_iff (Sample.passage (Sample.seconds 7200) (by decide +kernel) (by decide +kernel))
    (by decide)).2.mpr (by decide)

/-- With a minute left, the request is held for an hour, and a passport is minted after the
delegation has expired. -/
theorem passport_outlives_delegation :
    let run := Sample.passage (Sample.seconds 60) (by decide +kernel) (by decide +kernel)
    run.grant.notAfter = Sample.seconds 60 ∧
      run.done.passport.map (fun P => (P.issuedAt, P.expiresAt)) =
        some (1 + Sample.seconds 3600, 1 + Sample.seconds 3720) ∧
      ¬run.KeepsExpiry := by
  intro run
  refine ⟨rfl, by decide +kernel, ?_⟩
  rintro ⟨P, hP, hexpires, -⟩
  obtain rfl := Option.some.inj hP
  exact absurd hexpires (by decide)

end Sanad.Delegation.Lifetime
