import Sanad.Gateway

/-! # The revocation stage

`revoke/revoke.go`: the kill-switch as the gateway's hot path reads it, and the stage that rejects a
request whose principal, agent or blueprint is on it.
-/

namespace Sanad.Revoke

open Gateway

/-- `Checker`, with `FreshnessChecker` for those that answer from a snapshot. -/
structure Checker (σ : Type) where
  revoked : σ → Bytes → Bool
  checkFresh : Option (σ → Except Bytes Unit)

/-- The errors of the stage. -/
inductive RevocationError where
  /-- `revocation: %w` -/
  | stale (cause : Bytes)
  /-- `revocation: principal %q is revoked` -/
  | principal (id : Bytes)
  /-- `revocation: agent %q is revoked` -/
  | agent (id : Bytes)
  /-- `revocation: blueprint %q is revoked` -/
  | blueprint (id : Bytes)
  deriving DecidableEq, Repr

/-- The check of the principal. -/
def checkPrincipal (revoked : Bytes → Bool) : Option Principal → Except RevocationError Unit
  | some p => Except.require (revoked p.id = false) (.principal p.id)
  | none => .ok ()

/-- The check of the agent and its blueprint. -/
def checkAgent (revoked : Bytes → Bool) : Option Agent → Except RevocationError Unit
  | some a => do
    Except.require (revoked a.id = false) (.agent a.id)
    Except.require (¬(a.blueprintID ≠ [] ∧ revoked a.blueprintID = true)) (.blueprint a.blueprintID)
  | none => .ok ()

/-- The checks of the stage against what the kill-switch answers. -/
def checkIDs (revoked : Bytes → Bool) (principal : Option Principal) (agent : Option Agent) :
    Except RevocationError Unit := do
  checkPrincipal revoked principal
  checkAgent revoked agent

/-- The principal and the agent behind a request. -/
def partyIDs (req : Request) : List Bytes :=
  (req.principal.map Principal.id).toList ++ (req.agent.map Agent.id).toList

/-- A request that passes has no revoked party. -/
theorem not_revoked_of_checkIDs {revoked : Bytes → Bool} {req : Request}
    (h : checkIDs revoked req.principal req.agent = .ok ()) :
    ∀ id ∈ partyIDs req, revoked id = false := by
  rw [checkIDs, Except.check_bind_eq_ok_iff] at h
  obtain ⟨hprincipal, hagent⟩ := h
  intro id hid
  rcases List.mem_append.mp hid with hid | hid
  · obtain ⟨p, hp, rfl⟩ := Option.map_eq_some_iff.mp (Option.mem_toList.mp hid)
    rw [hp] at hprincipal
    exact Except.require_eq_ok_iff.mp hprincipal
  · obtain ⟨a, ha, rfl⟩ := Option.map_eq_some_iff.mp (Option.mem_toList.mp hid)
    rw [ha] at hagent
    exact Except.require_eq_ok_iff.mp (Except.check_bind_eq_ok_iff.mp hagent).1

/-- An agent of no blueprint passes exactly if neither it nor its principal is revoked. -/
theorem checkIDs_eq_ok_iff {revoked : Bytes → Bool} {p : Principal} {a : Agent}
    (hblueprint : a.blueprintID = []) :
    checkIDs revoked (some p) (some a) = .ok () ↔ revoked p.id = false ∧ revoked a.id = false := by
  simp only [checkIDs, checkPrincipal, checkAgent, Except.check_bind_eq_ok_iff,
    Except.require_eq_ok_iff, hblueprint]
  simp

variable {σ : Type}

/-- `CheckFresh`, for a checker that has it. -/
def Checker.fresh (c : Checker σ) (w : σ) : Except RevocationError Unit :=
  match c.checkFresh with
  | some check => (check w).mapError .stale
  | none => .ok ()

/-- `Stage` -/
def stage (c : Checker σ) : Stage RevocationError σ where
  name := Bytes.ascii "revocation"
  handle := do
    let req ← request
    let w ← EStateM.read Prod.fst
    EStateM.liftExcept (c.fresh w)
    EStateM.liftExcept (checkIDs (c.revoked w) req.principal req.agent)

/-- The stage changes nothing; it passes what a kill-switch that can be trusted does not stop. -/
theorem handle_stage_eq_ok_iff {c : Checker σ} {w w' : σ} {req req' : Request} :
    (stage c).handle (w, req) = .ok () (w', req') ↔ c.fresh w = .ok () ∧
      checkIDs (c.revoked w) req.principal req.agent = .ok () ∧ w = w' ∧ req = req' := by
  simp only [stage, request_bind_eq_ok_iff, EStateM.read_bind_eq_ok_iff,
    EStateM.liftExcept_bind_eq_ok_iff, EStateM.liftExcept_eq_ok_iff, Prod.mk.injEq]
  constructor
  · rintro ⟨⟨⟩, hfresh, hids, hw, hreq⟩
    exact ⟨hfresh, hids, hw, hreq⟩
  · rintro ⟨hfresh, hids, hw, hreq⟩
    exact ⟨(), hfresh, hids, hw, hreq⟩

theorem handle_stage {c : Checker σ} {w w' : σ} {req req' : Request}
    (h : (stage c).handle (w, req) = .ok () (w', req')) :
    checkIDs (c.revoked w) req.principal req.agent = .ok () ∧ w' = w ∧ req' = req := by
  obtain ⟨-, hids, rfl, rfl⟩ := handle_stage_eq_ok_iff.mp h
  exact ⟨hids, rfl, rfl⟩

end Sanad.Revoke
