import Mathlib.Logic.Function.Basic
import Sanad.Types

/-! # The approver, step by step

`ManualApprover` (`policy/hitl.go`) in single steps: any number of `Decide` calls that wait for an
operator, any number of `Approve` and `Deny` calls, and the lock they share. A section under the lock
is one step, except in `resolve`, which sends on a channel while it holds the lock: there the removal
of the entry, the send and the unlock are three.
-/

namespace Sanad.Policy.ManualApprover

/-! ## The state -/

/-- Why `Decide` stops waiting on its own. -/
inductive Cause where
  | timeout
  | cancelled
  deriving DecidableEq

/-- How a `Decide` call ends. -/
inductive Outcome where
  /-- With the decision that came over its channel. -/
  | received (d : Decision)
  /-- With the denial of the timeout, or with the error of its context. -/
  | gaveUp (cause : Cause)
  deriving DecidableEq

/-- What `Decide` returns; the error is that of the context. -/
def Outcome.result : Outcome → Except Unit Decision
  | .received d => .ok d
  | .gaveUp .timeout => .ok ⟨.deny, .text (Bytes.ascii "approval timed out")⟩
  | .gaveUp .cancelled => .error ()

/-- Where a `Decide` call stands. -/
inductive Waiter where
  /-- Not called yet. -/
  | idle
  /-- Returned the error of `newID`, without a review. -/
  | failed
  /-- In the `select`. -/
  | selecting (id : Bytes)
  /-- The `select` took the branch of the timeout or of the context, and `claim` comes next. -/
  | claiming (id : Bytes) (cause : Cause)
  /-- `claim` did not find the entry and receives from the channel. -/
  | receiving (id : Bytes)
  | returned (id : Bytes) (outcome : Outcome)
  deriving DecidableEq

/-- Where an `Approve` or `Deny` call stands. -/
inductive Operator where
  /-- Not called yet. -/
  | idle
  /-- `resolve` has removed the entry and sends the decision next, to the given `Decide` call. -/
  | sending (id : Bytes) (d : Decision) (w : ℕ)
  /-- `resolve` has sent and still holds the lock. -/
  | sent (id : Bytes) (d : Decision)
  | returned (id : Bytes) (d : Decision) (ok : Bool)
  deriving DecidableEq

/-- The approver with the calls made on it, each under its number. -/
structure State where
  /-- The operator's call that holds `mu` between two steps. -/
  mu : Option ℕ
  /-- The entries of the queue: the `Decide` call whose channel an entry holds. -/
  pending : Bytes → Option ℕ
  /-- What is in the channel of a `Decide` call; there is room for one decision. -/
  chan : ℕ → Option Decision
  waiters : ℕ → Waiter
  operators : ℕ → Operator
  /-- The ids drawn so far. `newID` draws 96 random bits, and no id is drawn twice. -/
  drawn : List Bytes

/-- `NewManualApprover`, before any call. -/
def State.new : State := ⟨none, fun _ => none, fun _ => none, fun _ => .idle, fun _ => .idle, []⟩

/-! ## The steps -/

/-- `Decide` up to its `select`: the review is queued under a fresh id. -/
def State.decide (s : State) (w : ℕ) (id : Bytes) : Option State :=
  if s.waiters w = .idle ∧ s.mu = none ∧ id ∉ s.drawn then
    some { s with
      pending := Function.update s.pending id (some w)
      waiters := Function.update s.waiters w (.selecting id)
      drawn := id :: s.drawn }
  else none

/-- `Decide` whose `newID` fails. -/
def State.decideFailed (s : State) (w : ℕ) : Option State :=
  if s.waiters w = .idle then some { s with waiters := Function.update s.waiters w .failed }
  else none

/-- A receive from the channel of a `Decide` call, which then returns. It blocks on an empty channel.
-/
def State.receiveAs (s : State) (w : ℕ) (id : Bytes) : Option State :=
  (s.chan w).map fun d =>
    { s with
      chan := Function.update s.chan w none
      waiters := Function.update s.waiters w (.returned id (.received d)) }

/-- The `select` takes the branch of the channel. -/
def State.receive (s : State) (w : ℕ) : Option State :=
  match s.waiters w with
  | .selecting id => s.receiveAs w id
  | _ => none

/-- The `select` takes the branch of the timeout or of the context, whatever is in the channel. -/
def State.giveUp (s : State) (w : ℕ) (cause : Cause) : Option State :=
  match s.waiters w with
  | .selecting id => some { s with waiters := Function.update s.waiters w (.claiming id cause) }
  | _ => none

/-- `claim` up to the unlock. An entry that is still there makes the waiter the winner. -/
def State.claim (s : State) (w : ℕ) : Option State :=
  match s.waiters w with
  | .claiming id cause =>
    if s.mu = none then
      some { s with
        pending := Function.update s.pending id none
        waiters := Function.update s.waiters w
          (if (s.pending id).isSome then .returned id (.gaveUp cause) else .receiving id) }
    else none
  | _ => none

/-- The receive at the end of `claim`. -/
def State.claimReceive (s : State) (w : ℕ) : Option State :=
  match s.waiters w with
  | .receiving id => s.receiveAs w id
  | _ => none

/-- `resolve` up to the send. Without an entry it returns at once. -/
def State.resolve (s : State) (o : ℕ) (id : Bytes) (d : Decision) : Option State :=
  if s.operators o = .idle ∧ s.mu = none then
    match s.pending id with
    | none => some { s with operators := Function.update s.operators o (.returned id d false) }
    | some w =>
      some { s with
        mu := some o
        pending := Function.update s.pending id none
        operators := Function.update s.operators o (.sending id d w) }
  else none

/-- The send of `resolve`. It blocks on a full channel. -/
def State.send (s : State) (o : ℕ) : Option State :=
  match s.operators o with
  | .sending id d w =>
    if s.chan w = none then
      some { s with
        chan := Function.update s.chan w (some d)
        operators := Function.update s.operators o (.sent id d) }
    else none
  | _ => none

/-- `resolve` unlocks and returns. -/
def State.unlock (s : State) (o : ℕ) : Option State :=
  match s.operators o with
  | .sent id d =>
    some { s with
      mu := none, operators := Function.update s.operators o (.returned id d true) }
  | _ => none

/-- A step of one of the calls. -/
inductive Event where
  | decide (w : ℕ) (id : Bytes)
  | decideFailed (w : ℕ)
  | receive (w : ℕ)
  | timeout (w : ℕ)
  | cancel (w : ℕ)
  | claim (w : ℕ)
  | claimReceive (w : ℕ)
  | approve (o : ℕ) (id : Bytes)
  | deny (o : ℕ) (id reason : Bytes)
  | send (o : ℕ)
  | unlock (o : ℕ)

/-- The effect of a step on an approver with the given timeout, none if the call is elsewhere or
blocks. Without a positive timeout there is no timer. -/
def step (timeout : ℤ) (s : State) : Event → Option State
  | .decide w id => s.decide w id
  | .decideFailed w => s.decideFailed w
  | .receive w => s.receive w
  | .timeout w => if 0 < timeout then s.giveUp w .timeout else none
  | .cancel w => s.giveUp w .cancelled
  | .claim w => s.claim w
  | .claimReceive w => s.claimReceive w
  | .approve o id => s.resolve o id ⟨.allow, .text (Bytes.ascii "approved")⟩
  | .deny o id reason => s.resolve o id ⟨.deny, .text reason⟩
  | .send o => s.send o
  | .unlock o => s.unlock o

section Steps

variable {s s' : State} {w o : ℕ} {id : Bytes} {d : Decision}

theorem State.of_decide (h : s.decide w id = some s') :
    s.waiters w = .idle ∧ id ∉ s.drawn ∧
      s' = { s with
        pending := Function.update s.pending id (some w)
        waiters := Function.update s.waiters w (.selecting id)
        drawn := id :: s.drawn } := by
  rw [State.decide] at h
  split at h
  · next hguard =>
      cases h
      exact ⟨hguard.1, hguard.2.2, rfl⟩
  · cases h

theorem State.of_decideFailed (h : s.decideFailed w = some s') :
    s.waiters w = .idle ∧ s' = { s with waiters := Function.update s.waiters w .failed } := by
  rw [State.decideFailed] at h
  split at h
  · next hidle =>
      cases h
      exact ⟨hidle, rfl⟩
  · cases h

theorem State.of_receiveAs (h : s.receiveAs w id = some s') :
    ∃ d, s.chan w = some d ∧
      s' = { s with
        chan := Function.update s.chan w none
        waiters := Function.update s.waiters w (.returned id (.received d)) } := by
  obtain ⟨d, hd, rfl⟩ := Option.map_eq_some_iff.mp h
  exact ⟨d, hd, rfl⟩

theorem State.of_receive (h : s.receive w = some s') :
    ∃ id, s.waiters w = .selecting id ∧ s.receiveAs w id = some s' := by
  rw [State.receive] at h
  split at h
  · next id hw => exact ⟨id, hw, h⟩
  · cases h

theorem State.of_giveUp {cause : Cause} (h : s.giveUp w cause = some s') :
    ∃ id, s.waiters w = .selecting id ∧
      s' = { s with waiters := Function.update s.waiters w (.claiming id cause) } := by
  rw [State.giveUp] at h
  split at h
  · next id hw =>
      cases h
      exact ⟨id, hw, rfl⟩
  · cases h

theorem State.of_claim (h : s.claim w = some s') :
    ∃ id cause, s.waiters w = .claiming id cause ∧ s.mu = none ∧
      s' = { s with
        pending := Function.update s.pending id none
        waiters := Function.update s.waiters w
          (if (s.pending id).isSome then .returned id (.gaveUp cause) else .receiving id) } := by
  rw [State.claim] at h
  split at h
  · next id cause hw =>
      split at h
      · next hmu =>
          cases h
          exact ⟨id, cause, hw, hmu, rfl⟩
      · cases h
  · cases h

theorem State.of_claimReceive (h : s.claimReceive w = some s') :
    ∃ id, s.waiters w = .receiving id ∧ s.receiveAs w id = some s' := by
  rw [State.claimReceive] at h
  split at h
  · next id hw => exact ⟨id, hw, h⟩
  · cases h

theorem State.of_resolve (h : s.resolve o id d = some s') :
    s.operators o = .idle ∧ s.mu = none ∧
      (s' = { s with operators := Function.update s.operators o (.returned id d false) } ∨
        ∃ w, s.pending id = some w ∧
          s' = { s with
            mu := some o
            pending := Function.update s.pending id none
            operators := Function.update s.operators o (.sending id d w) }) := by
  rw [State.resolve] at h
  split at h
  · next hguard =>
      refine ⟨hguard.1, hguard.2, ?_⟩
      split at h
      · cases h
        exact .inl rfl
      · next w hw =>
          cases h
          exact .inr ⟨w, hw, rfl⟩
  · cases h

theorem State.of_send (h : s.send o = some s') :
    ∃ id d w, s.operators o = .sending id d w ∧
      s' = { s with
        chan := Function.update s.chan w (some d)
        operators := Function.update s.operators o (.sent id d) } := by
  rw [State.send] at h
  split at h
  · next id d w ho =>
      split at h
      · cases h
        exact ⟨id, d, w, ho, rfl⟩
      · cases h
  · cases h

theorem State.of_unlock (h : s.unlock o = some s') :
    ∃ id d, s.operators o = .sent id d ∧
      s' = { s with
        mu := none, operators := Function.update s.operators o (.returned id d true) } := by
  rw [State.unlock] at h
  split at h
  · next id d ho =>
      cases h
      exact ⟨id, d, ho, rfl⟩
  · cases h

end Steps

end Sanad.Policy.ManualApprover
