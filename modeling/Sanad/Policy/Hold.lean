import Mathlib.Data.Finset.SDiff
import Mathlib.Logic.Function.Basic
import Sanad.Common.Transition
import Sanad.Policy.Stage
import Sanad.Revoke.Stage

/-! # Requests that are held for approval

The stages from the revocation check to the mint, step by step, for any number of requests at once.
In between, `ManualApprover.Decide` (`policy/hitl.go`) holds a request whose decision is a review
until an operator resolves it, its timeout elapses or it is cancelled, while other operators use the
kill-switch. The check is not made again after the wait.
-/

namespace Sanad.Policy

open Gateway

/-! ## The system -/

/-- Where a request stands. -/
inductive Phase where
  /-- Before the revocation stage. -/
  | checking
  /-- In the policy stage, with the actions that are still to be decided. -/
  | deciding (acts : List Action)
  /-- In `Decide`, with the id of its review, the actions after the one under review, and what was
  sent on its channel. -/
  | held (review : Bytes) (acts : List Action) (chan : Option Decision)
  | minted
  | denied
  deriving DecidableEq

/-- A request and where it stands. -/
structure Flight where
  req : Request
  phase : Phase

/-- The kill-switch as the gateway's checker sees it, the pending reviews of the approver by id, and
the requests by number. -/
structure System where
  killSwitch : Finset Bytes
  pending : Bytes → Option ℕ
  flights : ℕ → Flight

/-- A step that a request takes. -/
inductive Move where
  /-- The revocation stage. -/
  | check
  /-- The decision point decides the next action; a review gets the given id. -/
  | evaluate (d : Decision) (review : Bytes)
  /-- The decision point fails. -/
  | evaluateFailed
  /-- `Decide` receives from its channel. -/
  | receive
  /-- The timeout of `Decide` elapses. -/
  | timeout
  /-- The request is cancelled while it is held. -/
  | cancel
  /-- The mint stage. -/
  | mint
  /-- The mint stage fails. -/
  | mintFailed
  deriving DecidableEq

/-- A step of the system. -/
inductive Event where
  | revoke (ids : Finset Bytes)
  | restore (ids : Finset Bytes)
  /-- `ManualApprover.Approve` -/
  | approve (review : Bytes)
  /-- `ManualApprover.Deny` -/
  | deny (review reason : Bytes)
  /-- A request moves on. -/
  | move (r : ℕ) (m : Move)

/-- The actions that the policy stage decides: at least one. -/
def decisionsOf (req : Request) : List Action :=
  if (mcpActions req).length = 0 then [⟨methodNone, []⟩] else mcpActions req

/-- The policy stage goes on with a decision for an action. -/
def Flight.decide (f : Flight) (d : Decision) (acts : List Action) : Flight :=
  ⟨{ f.req with decision := some d }, if d.allowed then .deciding acts else .denied⟩

/-- `ManualApprover.claim`: the waiter takes its review off the queue, and goes on as `lost` says.
If an operator came first, the decision is on the channel already. -/
def Flight.claim (f : Flight) (pending : Bytes → Option ℕ) (review : Bytes) (acts : List Action)
    (chan : Option Decision) (lost : Flight) : Option (Flight × (Bytes → Option ℕ)) :=
  match pending review with
  | some _ => some (lost, Function.update pending review none)
  | none => chan.map fun d => (f.decide d acts, pending)

/-- What a request does in a step, and to the pending reviews. -/
def Flight.move (f : Flight) (killSwitch : Finset Bytes) (pending : Bytes → Option ℕ) (r : ℕ) :
    Move → Option (Flight × (Bytes → Option ℕ))
  | .check =>
    match f.phase with
    | .checking =>
      match Revoke.checkIDs (fun id => id ∈ killSwitch) f.req.principal f.req.agent with
      | .ok () => some ({ f with phase := .deciding (decisionsOf f.req) }, pending)
      | .error _ => some ({ f with phase := .denied }, pending)
    | _ => none
  | .evaluate d review =>
    match f.phase with
    | .deciding (act :: acts) =>
      if WithinScope f.req.scope act then
        if d.effect = .review then
          some ({ f with phase := .held review acts none }, Function.update pending review (some r))
        else some (f.decide d acts, pending)
      else some (f.decide ⟨.deny, .outsideScope act.tool f.req.scope.tools⟩ acts, pending)
    | _ => none
  | .evaluateFailed =>
    match f.phase with
    | .deciding (_ :: _) => some ({ f with phase := .denied }, pending)
    | _ => none
  | .receive =>
    match f.phase with
    | .held _ acts (some d) => some (f.decide d acts, pending)
    | _ => none
  | .timeout =>
    match f.phase with
    | .held review acts chan =>
      f.claim pending review acts chan
        (f.decide ⟨.deny, .text (Bytes.ascii "approval timed out")⟩ acts)
    | _ => none
  | .cancel =>
    match f.phase with
    | .held review acts chan => f.claim pending review acts chan { f with phase := .denied }
    | _ => none
  | .mint =>
    match f.phase with
    | .deciding [] => some ({ f with phase := .minted }, pending)
    | _ => none
  | .mintFailed =>
    match f.phase with
    | .deciding [] => some ({ f with phase := .denied }, pending)
    | _ => none

/-- A decision arrives on the channel of a waiting request. -/
def Flight.deliver (f : Flight) (d : Decision) : Flight :=
  match f.phase with
  | .held review acts none => { f with phase := .held review acts (some d) }
  | _ => f

/-- `ManualApprover.resolve`: without effect if the review is not pending. -/
def System.resolve (s : System) (review : Bytes) (d : Decision) : System :=
  match s.pending review with
  | none => s
  | some r =>
    { s with
      pending := Function.update s.pending review none
      flights := Function.update s.flights r ((s.flights r).deliver d) }

/-- The effect of an event, none if the request is not there. -/
def System.step (s : System) : Event → Option System
  | .revoke ids => some { s with killSwitch := s.killSwitch ∪ ids }
  | .restore ids => some { s with killSwitch := s.killSwitch \ ids }
  | .approve review => some (s.resolve review ⟨.allow, .text (Bytes.ascii "approved")⟩)
  | .deny review reason => some (s.resolve review ⟨.deny, .text reason⟩)
  | .move r m =>
    ((s.flights r).move s.killSwitch s.pending r m).map fun (f, pending) =>
      { s with pending := pending, flights := Function.update s.flights r f }

/-- No request has been checked yet. -/
def System.new (killSwitch : Finset Bytes) (reqs : ℕ → Request) : System :=
  ⟨killSwitch, fun _ => none, fun r => ⟨reqs r, .checking⟩⟩

/-! ## What the check is worth later -/

/-- The request is past its check and not done. -/
def Phase.inFlight : Phase → Bool
  | .deciding _ => true
  | .held _ _ _ => true
  | _ => false

/-- No revocation covers a party of a request that is past its check and not done. -/
def Spares (s : System) : Event → Prop
  | .revoke ids => ∀ r, (s.flights r).phase.inFlight = true →
      ∀ id ∈ Revoke.partyIDs (s.flights r).req, id ∉ ids
  | _ => True

/-- No party of a request that is past its check is on the kill-switch. -/
def Cleared (s : System) : Prop :=
  ∀ r, (s.flights r).phase.inFlight = true →
    ∀ id ∈ Revoke.partyIDs (s.flights r).req, id ∉ s.killSwitch

/-- How a flight may go on: with the same parties, and past the check only if it was past it before
or passes it now. -/
structure Follows (killSwitch : Finset Bytes) (f f' : Flight) : Prop where
  parties : Revoke.partyIDs f'.req = Revoke.partyIDs f.req
  inFlight : f'.phase.inFlight = true → f.phase.inFlight = true ∨
    ∀ id ∈ Revoke.partyIDs f.req, id ∉ killSwitch

section

variable {killSwitch : Finset Bytes} {pending pending' : Bytes → Option ℕ} {r : ℕ} {f f' : Flight}

theorem follows_of_inFlight (hf : f.phase.inFlight = true)
    (hparties : Revoke.partyIDs f'.req = Revoke.partyIDs f.req) : Follows killSwitch f f' :=
  ⟨hparties, fun _ => .inl hf⟩

theorem follows_claim {review : Bytes} {acts : List Action} {chan : Option Decision} {lost : Flight}
    (hf : f.phase.inFlight = true) (hlost : Revoke.partyIDs lost.req = Revoke.partyIDs f.req)
    (h : f.claim pending review acts chan lost = some (f', pending')) : Follows killSwitch f f' := by
  rw [Flight.claim] at h
  split at h
  · cases h
    exact follows_of_inFlight hf hlost
  · obtain ⟨d, -, hd⟩ := Option.map_eq_some_iff.mp h
    cases hd
    exact follows_of_inFlight hf rfl

theorem follows_move {m : Move} (h : f.move killSwitch pending r m = some (f', pending')) :
    Follows killSwitch f f' := by
  cases hphase : f.phase with
  | checking =>
      cases m <;> simp only [Flight.move, hphase, reduceCtorEq] at h
      split at h
      · next hcheck =>
          -- the only move into flight: no id of the request is revoked at this instant
          cases h
          refine ⟨rfl, fun _ => .inr fun id hid => ?_⟩
          exact of_decide_eq_false (Revoke.not_revoked_of_checkIDs hcheck id hid)
      · cases h
        exact ⟨rfl, fun hf => by cases hf⟩
  | deciding acts =>
      refine follows_of_inFlight (by rw [hphase]; rfl) ?_
      cases acts with
      | nil =>
          cases m <;> simp only [Flight.move, hphase, reduceCtorEq] at h
          · cases h
            rfl
          · cases h
            rfl
      | cons act acts =>
          cases m <;> simp only [Flight.move, hphase, reduceCtorEq] at h
          · split at h
            · split at h
              · cases h
                rfl
              · cases h
                rfl
            · cases h
              rfl
          · cases h
            rfl
  | held review acts chan =>
      have hf : f.phase.inFlight = true := by rw [hphase]; rfl
      cases m <;> simp only [Flight.move, hphase, reduceCtorEq] at h
      · split at h
        · cases h
          exact follows_of_inFlight hf rfl
        · cases h
      · exact follows_claim hf (by rfl) h
      · exact follows_claim hf (by rfl) h
  | minted => cases m <;> simp only [Flight.move, hphase, reduceCtorEq] at h
  | denied => cases m <;> simp only [Flight.move, hphase, reduceCtorEq] at h

theorem follows_deliver (killSwitch : Finset Bytes) (f : Flight) (d : Decision) :
    Follows killSwitch f (f.deliver d) := by
  rw [Flight.deliver]
  split
  · next hphase => exact follows_of_inFlight (by rw [hphase]; rfl) rfl
  · exact ⟨rfl, .inl⟩

end

/-- A flight that goes on stays cleared. -/
theorem Cleared.update {s : System} {pending : Bytes → Option ℕ} {r : ℕ} {f : Flight} (hs : Cleared s)
    (hf : Follows s.killSwitch (s.flights r) f) :
    Cleared { s with pending := pending, flights := Function.update s.flights r f } := by
  intro u hu id hid
  simp only [Function.update_apply] at hu hid
  split at hu
  · next heq =>
      rw [if_pos heq, hf.parties] at hid
      rcases hf.inFlight hu with hold | hnew
      · exact hs r hold id hid
      · exact hnew id hid
  · next hne =>
      rw [if_neg hne] at hid
      exact hs u hu id hid

theorem Cleared.resolve {s : System} (hs : Cleared s) (review : Bytes) (d : Decision) :
    Cleared (s.resolve review d) := by
  rw [System.resolve]
  split
  · exact hs
  · next r hr => exact hs.update (follows_deliver s.killSwitch (s.flights r) d)

/-- What the check has established stays true as long as revocations spare the request. -/
theorem Cleared.step {s s' : System} {e : Event} (hs : Cleared s) (hstep : s.step e = some s')
    (hspares : Spares s e) : Cleared s' := by
  cases e with
  | revoke ids =>
      cases hstep
      intro r hr id hid
      rw [Finset.mem_union, not_or]
      exact ⟨hs r hr id hid, hspares r hr id hid⟩
  | restore ids =>
      cases hstep
      intro r hr id hid hmem
      exact hs r hr id hid (Finset.mem_sdiff.mp hmem).1
  | approve review =>
      cases hstep
      exact hs.resolve review _
  | deny review reason =>
      cases hstep
      exact hs.resolve review _
  | move r m =>
      obtain ⟨⟨f, pending⟩, hmove, rfl⟩ := Option.map_eq_some_iff.mp hstep
      exact hs.update (follows_move hmove)

/-- If a party of a request is on the kill-switch at the moment an operator's approval releases the
request, and is not restored afterwards, then no passport is minted for the request. -/
def RevokedNeverMinted (start : System) (es : List Event) : Prop :=
  ∀ (es₁ es₂ : List Event) (review : Bytes) (s₁ s₂ : System) (r : ℕ) (acts : List Action) (id : Bytes),
    es = es₁ ++ .approve review :: es₂ →
    Transition.run System.step start es₁ = some s₁ → Transition.run System.step start es = some s₂ →
    (s₁.flights r).phase = .held review acts none → s₁.pending review = some r →
    id ∈ Revoke.partyIDs (s₁.flights r).req → id ∈ s₁.killSwitch →
    (∀ ids, .restore ids ∈ es₂ → id ∉ ids) → (s₂.flights r).phase ≠ .minted

/-- A request of the principal p, without any call. -/
def requestOfP : Request where
  server := Bytes.ascii "s"
  target := none
  http := none
  body := none
  calls := []
  principal := some ⟨Bytes.ascii "p", [], .org, false, 0⟩
  agent := none
  decision := none
  scope := ⟨[], none⟩
  delegation := none
  passport := none

/-- The events of a request that is held, with what happens in the meantime. -/
def heldRun (meanwhile : List Event) : List Event :=
  [.move 0 .check, .move 0 (.evaluate ⟨.review, .text []⟩ (Bytes.ascii "v"))] ++ meanwhile ++
    [.approve (Bytes.ascii "v"), .move 0 .receive, .move 0 .mint]

end Sanad.Policy
