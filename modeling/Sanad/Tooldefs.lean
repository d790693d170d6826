import Sanad.Gateway

/-! # The drift stage

`tooldefs/guard.go`: the stage that refuses requests to a server whose tool definitions have
drifted.
-/

namespace Sanad.Tooldefs

open Gateway

/-- `Mode` -/
inductive Mode where
  | deny
  | warn
  deriving DecidableEq, Repr

/-- `Event`, as far as the stage reads it. -/
structure Event where
  mode : Mode
  approved : Bytes
  observed : Bytes
  observedAt : ℤ
  deriving DecidableEq, Repr

/-- `Guard`, as far as the stage reads it: the servers that are held, at a given moment. -/
structure Guard (σ : Type) where
  quarantined : σ → Bytes → Option Event

/-- The error of the stage: `tooldefs: ` and the reason. -/
inductive TooldefsError where
  | denied (reason : Reason)
  deriving DecidableEq, Repr

/-- `recoveryOnly`: no body, or nothing but the handshake and `tools/list`. -/
def recoveryOnly (req : Request) : Bool :=
  if (req.body.getD []).length = 0 then true
  else if req.calls.length = 0 then false
  else req.calls.all fun c =>
    c.method = Bytes.ascii "initialize" || c.method = Bytes.ascii "notifications/initialized" ||
      c.method = Bytes.ascii "tools/list"

variable {σ : Type}

/-- `Guard.Stage` -/
def stage (g : Guard σ) : Stage TooldefsError σ where
  name := Bytes.ascii "tooldefs"
  handle := do
    let req ← request
    let w ← EStateM.read Prod.fst
    match g.quarantined w req.server with
    | none => pure ()
    | some ev =>
      if ev.mode ≠ .deny ∨ recoveryOnly req = true then pure ()
      else
        let reason := Reason.quarantined req.server ev.approved ev.observed ev.observedAt
        updateRequest fun r => { r with decision := some ⟨.deny, reason⟩ }
        EStateM.liftExcept (.error (.denied reason))

/-- A request that passes the stage is unchanged. -/
theorem handle_stage {g : Guard σ} {w w' : σ} {req req' : Request}
    (h : (stage g).handle (w, req) = .ok () (w', req')) : req' = req := by
  simp only [stage, request_bind_eq_ok_iff, EStateM.read_bind_eq_ok_iff] at h
  cases hheld : g.quarantined w req.server with
  | none =>
      simp only [hheld, EStateM.pure_eq_ok_iff, Prod.mk.injEq] at h
      exact h.2.2.symm
  | some ev =>
      simp only [hheld] at h
      split at h
      · rw [EStateM.pure_eq_ok_iff, Prod.mk.injEq] at h
        exact h.2.2.symm
      · cases h

/-- What is held in deny mode is denied, recovery apart. -/
theorem handle_stage_denies {g : Guard σ} {w : σ} {req : Request} {ev : Event}
    (hev : g.quarantined w req.server = some ev) (hmode : ev.mode = .deny)
    (hrecovery : recoveryOnly req = false) :
    ∃ err req', (stage g).handle (w, req) = .error err (w, req') := by
  have hdenied : ¬(ev.mode ≠ .deny ∨ recoveryOnly req = true) := by
    rw [hmode, hrecovery]
    decide
  simp only [stage, request, bind, EStateM.bind, EStateM.read, hev, if_neg hdenied]
  exact ⟨_, _, rfl⟩

theorem handle_stage_passes {g : Guard σ} {w : σ} {req : Request}
    (h : ∀ ev, g.quarantined w req.server = some ev → ev.mode = .deny → recoveryOnly req = true) :
    (stage g).handle (w, req) = .ok () (w, req) := by
  simp only [stage, request, bind, EStateM.bind, EStateM.read]
  cases hev : g.quarantined w req.server with
  | none => rfl
  | some ev =>
      have hpass : ev.mode ≠ .deny ∨ recoveryOnly req = true := by
        by_cases hmode : ev.mode = .deny
        · exact .inr (h ev hev hmode)
        · exact .inl hmode
      simp only [if_pos hpass]
      rfl

/-- When the stage denies a request. -/
theorem handle_stage_error_iff {g : Guard σ} {w : σ} {req : Request} :
    (∃ err w', (stage g).handle (w, req) = .error err w') ↔
      (∃ ev, g.quarantined w req.server = some ev ∧ ev.mode = .deny) ∧ recoveryOnly req = false := by
  constructor
  · rintro ⟨err, w', hdenied⟩
    by_contra hpass
    rw [handle_stage_passes] at hdenied
    · cases hdenied
    · intro ev hev hmode
      by_contra hrecovery
      exact hpass ⟨⟨ev, hev, hmode⟩, Bool.eq_false_iff.mpr hrecovery⟩
  · rintro ⟨⟨ev, hev, hmode⟩, hrecovery⟩
    obtain ⟨err, req', hdenied⟩ := handle_stage_denies hev hmode hrecovery
    exact ⟨err, _, hdenied⟩

end Sanad.Tooldefs
