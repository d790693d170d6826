import Sanad.Common.Transition
import Sanad.Policy.Approver

/-! # One winner for every review

A review goes from the queue to exactly one end. Either an operator takes it, sends, and the waiter
receives what was sent, or the waiter takes it back. `Shows` ties each stage of that to the state,
and every step leaves every review in some stage.
-/

namespace Sanad.Policy.ManualApprover

open Transition

/-! ## The life of a review -/

/-- The stages of a review. -/
inductive Status where
  | queued
  /-- An operator's call has removed it and not sent yet. -/
  | taken (o : ℕ) (d : Decision)
  /-- The decision is in the channel. -/
  | delivered (o : ℕ) (d : Decision)
  /-- The waiter has received the decision. -/
  | answered (o : ℕ) (d : Decision)
  /-- The waiter has taken it back. -/
  | abandoned (cause : Cause)

/-- The entry of the review of call `w`. -/
def Status.pending (w : ℕ) : Status → Option ℕ
  | .queued => some w
  | _ => none

/-- What is in its channel. -/
def Status.chan : Status → Option Decision
  | .delivered _ d => some d
  | _ => none

/-- The part of an operator's call in it: the decision, and whether it was sent. -/
def Status.part (o : ℕ) : Status → Option (Decision × Bool)
  | .taken o' d => if o = o' then some (d, false) else none
  | .delivered o' d => if o = o' then some (d, true) else none
  | .answered o' d => if o = o' then some (d, true) else none
  | _ => none

/-- Where its waiter may stand. -/
def Status.Allows (id : Bytes) : Status → Waiter → Prop
  | .queued, p => p = .selecting id ∨ ∃ cause, p = .claiming id cause
  | .taken _ _, p => p = .selecting id ∨ ∃ cause, p = .claiming id cause
  | .delivered _ _, p => p = .selecting id ∨ (∃ cause, p = .claiming id cause) ∨ p = .receiving id
  | .answered _ d, p => p = .returned id (.received d)
  | .abandoned cause, p => p = .returned id (.gaveUp cause)

/-- The review that a `Decide` call waits for or waited for. -/
def Waiter.review : Waiter → Option Bytes
  | .idle => none
  | .failed => none
  | .selecting id => some id
  | .claiming id _ => some id
  | .receiving id => some id
  | .returned id _ => some id

/-- The part of an operator's call in a review: the decision, and whether it was sent. -/
def Operator.part (id : Bytes) : Operator → Option (Decision × Bool)
  | .sending id' d _ => if id' = id then some (d, false) else none
  | .sent id' d => if id' = id then some (d, true) else none
  | .returned id' d true => if id' = id then some (d, true) else none
  | _ => none

/-- The call holds the lock between two steps. -/
def Operator.locks : Operator → Bool
  | .sending _ _ _ => true
  | .sent _ _ => true
  | _ => false

/-- The review `id` of call `w` is in the given stage. -/
structure Shows (s : State) (w : ℕ) (id : Bytes) (st : Status) : Prop where
  pending : s.pending id = st.pending w
  chan : s.chan w = st.chan
  waiter : st.Allows id (s.waiters w)
  part : ∀ o, (s.operators o).part id = st.part o

/-- Every review is in some stage, ids are not shared, and the lock is held for a send. -/
structure Consistent (s : State) : Prop where
  shows : ∀ {w id}, (s.waiters w).review = some id → ∃ st, Shows s w id st
  unique : ∀ {w w' id}, (s.waiters w).review = some id → (s.waiters w').review = some id → w = w'
  drawn : ∀ {w id}, (s.waiters w).review = some id → id ∈ s.drawn
  empty : ∀ {w}, (s.waiters w).review = none → s.chan w = none
  entry : ∀ {id w}, s.pending id = some w → (s.waiters w).review = some id
  known : ∀ {o id p}, (s.operators o).part id = some p → ∃ w, (s.waiters w).review = some id
  locked : ∀ {o}, (s.operators o).locks = true → s.mu = some o
  target : ∀ {o id d w}, s.operators o = .sending id d w → (s.waiters w).review = some id

theorem Status.Allows.review {id : Bytes} {st : Status} {p : Waiter} (h : st.Allows id p) :
    p.review = some id := by
  cases st with
  | queued =>
      rcases h with rfl | ⟨cause, rfl⟩ <;> rfl
  | taken o d =>
      rcases h with rfl | ⟨cause, rfl⟩ <;> rfl
  | delivered o d =>
      rcases h with rfl | ⟨cause, rfl⟩ | rfl <;> rfl
  | answered o d => rw [h]; rfl
  | abandoned cause => rw [h]; rfl

theorem consistent_new : Consistent State.new where
  shows h := nomatch h
  unique h := nomatch h
  drawn h := nomatch h
  empty _ := rfl
  entry h := nomatch h
  known h := nomatch h
  locked h := nomatch h
  target h := nomatch h

section Frame

variable {s s' : State} {w : ℕ} {id : Bytes} {st : Status}

theorem Shows.review (h : Shows s w id st) : (s.waiters w).review = some id := h.waiter.review

/-- The calls that know the review of a call are the same ones as before. -/
theorem review_eq_of_others (hw : (s'.waiters w).review = (s.waiters w).review)
    (hothers : ∀ w', w' ≠ w → s'.waiters w' = s.waiters w') (w' : ℕ) :
    (s'.waiters w').review = (s.waiters w').review := by
  by_cases h : w' = w
  · rw [h, hw]
  · rw [hothers w' h]

/-- A step that concerns one review keeps the state consistent if it leaves that review in some
stage. -/
theorem Consistent.of_review (h : Consistent s) (hid : (s.waiters w).review = some id)
    (hshows : Shows s' w id st)
    (hwaiters : ∀ w', w' ≠ w → s'.waiters w' = s.waiters w')
    (hchan : ∀ w', w' ≠ w → s'.chan w' = s.chan w')
    (hpending : ∀ id', id' ≠ id → s'.pending id' = s.pending id')
    (hpart : ∀ o id', id' ≠ id → (s'.operators o).part id' = (s.operators o).part id')
    (hdrawn : s'.drawn = s.drawn)
    (hlocked : ∀ o, (s'.operators o).locks = true → s'.mu = some o)
    (htarget : ∀ o id d w, s'.operators o = .sending id d w → (s.waiters w).review = some id) :
    Consistent s' := by
  have hreview := review_eq_of_others (hshows.review.trans hid.symm) hwaiters
  refine ⟨?_, ?_, ?_, ?_, ?_, ?_, hlocked _, ?_⟩
  · -- a review of another call has another id, so that nothing of it has changed
    intro w' id' hw'
    by_cases hne : w' = w
    · rw [hne, hshows.review, Option.some.injEq] at hw'
      rw [hne, ← hw']
      exact ⟨st, hshows⟩
    · rw [hreview] at hw'
      have hid' : id' ≠ id := by
        rintro rfl
        exact hne (h.unique hw' hid)
      obtain ⟨st', hst'⟩ := h.shows hw'
      exact ⟨st', (hpending id' hid').trans hst'.pending, (hchan w' hne).trans hst'.chan,
        (hwaiters w' hne).symm ▸ hst'.waiter, fun o => (hpart o id' hid').trans (hst'.part o)⟩
  · intro w₁ w₂ id' h₁ h₂
    rw [hreview] at h₁ h₂
    exact h.unique h₁ h₂
  · intro w' id' hw'
    rw [hreview] at hw'
    rw [hdrawn]
    exact h.drawn hw'
  · intro w' hw'
    by_cases hne : w' = w
    · rw [hne, hshows.review] at hw'
      cases hw'
    · rw [hreview] at hw'
      rw [hchan w' hne]
      exact h.empty hw'
  · intro id' w' hentry
    rw [hreview]
    by_cases hid' : id' = id
    · rw [hid', hshows.pending] at hentry
      cases st <;> cases hentry
      rw [hid', hid]
    · rw [hpending id' hid'] at hentry
      exact h.entry hentry
  · intro o id' p hp
    by_cases hid' : id' = id
    · exact ⟨w, hid' ▸ hshows.review⟩
    · rw [hpart o id' hid'] at hp
      obtain ⟨w', hw'⟩ := h.known hp
      exact ⟨w', (hreview w').trans hw'⟩
  · intro o id' d w' hsending
    rw [hreview]
    exact htarget o id' d w' hsending

/-- A step that concerns no review keeps the state consistent. -/
theorem Consistent.congr (h : Consistent s)
    (hreview : ∀ w, (s'.waiters w).review = (s.waiters w).review)
    (hwaiters : ∀ w id, (s.waiters w).review = some id → s'.waiters w = s.waiters w)
    (hchan : s'.chan = s.chan) (hpending : s'.pending = s.pending)
    (hpart : ∀ o id, (s'.operators o).part id = (s.operators o).part id)
    (hdrawn : s'.drawn = s.drawn)
    (hlocked : ∀ o, (s'.operators o).locks = true → s'.mu = some o)
    (htarget : ∀ o id d w, s'.operators o = .sending id d w → s.operators o = .sending id d w) :
    Consistent s' where
  shows hw := by
    rw [hreview] at hw
    obtain ⟨st, hst⟩ := h.shows hw
    exact ⟨st, hpending ▸ hst.pending, hchan ▸ hst.chan, (hwaiters _ _ hw).symm ▸ hst.waiter,
      fun o => (hpart o _).trans (hst.part o)⟩
  unique h₁ h₂ := by
    rw [hreview] at h₁ h₂
    exact h.unique h₁ h₂
  drawn hw := by
    rw [hreview] at hw
    exact hdrawn ▸ h.drawn hw
  empty hw := by
    rw [hreview] at hw
    exact hchan ▸ h.empty hw
  entry hentry := by
    rw [hpending] at hentry
    rw [hreview]
    exact h.entry hentry
  known hp := by
    rw [hpart] at hp
    obtain ⟨w, hw⟩ := h.known hp
    exact ⟨w, (hreview w).trans hw⟩
  locked := hlocked _
  target hsending := by
    rw [hreview]
    exact h.target (htarget _ _ _ _ hsending)

end Frame

/-! ## Every step keeps the reviews consistent -/

section Step

variable {s s' : State} {w o : ℕ} {id : Bytes} {d : Decision}

/-- Nobody has a part in a review whose id was not drawn yet. -/
theorem Consistent.part_eq_none (h : Consistent s) (hid : id ∉ s.drawn) (o : ℕ) :
    (s.operators o).part id = none := by
  cases hpart : (s.operators o).part id with
  | none => rfl
  | some p =>
      obtain ⟨w, hw⟩ := h.known hpart
      exact absurd (h.drawn hw) hid

theorem Consistent.decide (h : Consistent s) (hs : s.decide w id = some s') : Consistent s' := by
  obtain ⟨hidle, hfresh, rfl⟩ := State.of_decide hs
  have hnone : (s.waiters w).review = none := by rw [hidle, Waiter.review]
  have hother : ∀ {w' id'}, w' ≠ w → (s.waiters w').review = some id' → id' ≠ id := by
    rintro w' id' - hw' rfl
    exact hfresh (h.drawn hw')
  have hsome : ∀ {w' id'}, (s.waiters w').review = some id' → w' ≠ w := by
    rintro w' id' hw' rfl
    rw [hnone] at hw'
    cases hw'
  refine ⟨?_, ?_, ?_, ?_, ?_, ?_, h.locked, ?_⟩
  · -- the new review is queued: its id is fresh, so no operator has a part in it
    intro w' id' hw'
    by_cases hne : w' = w
    · subst hne
      simp only [Function.update_self, Waiter.review, Option.some.injEq] at hw'
      subst hw'
      exact ⟨.queued, Function.update_self .., h.empty hnone,
        .inl (Function.update_self ..), h.part_eq_none hfresh⟩
    · simp only [Function.update_of_ne hne] at hw'
      obtain ⟨st, hst⟩ := h.shows hw'
      exact ⟨st, (Function.update_of_ne (hother hne hw') ..).trans hst.pending, hst.chan,
        by simpa only [Function.update_of_ne hne] using hst.waiter, hst.part⟩
  · intro w₁ w₂ id' h₁ h₂
    simp only [Function.update_apply] at h₁ h₂
    split at h₁
    · next e₁ =>
        split at h₂
        · next e₂ => rw [e₁, e₂]
        · next e₂ =>
            simp only [Waiter.review, Option.some.injEq] at h₁
            exact absurd h₁.symm (hother e₂ h₂)
    · next e₁ =>
        split at h₂
        · simp only [Waiter.review, Option.some.injEq] at h₂
          exact absurd h₂.symm (hother e₁ h₁)
        · exact h.unique h₁ h₂
  · intro w' id' hw'
    simp only [Function.update_apply] at hw'
    split at hw'
    · simp only [Waiter.review, Option.some.injEq] at hw'
      rw [← hw']
      exact List.mem_cons_self
    · exact List.mem_cons_of_mem id (h.drawn hw')
  · intro w' hw'
    simp only [Function.update_apply] at hw'
    split at hw'
    · cases hw'
    · exact h.empty hw'
  · intro id' w' hentry
    simp only [Function.update_apply] at hentry
    split at hentry
    · next e =>
        cases hentry
        simp [e, Waiter.review]
    · have hw' := h.entry hentry
      simpa only [Function.update_of_ne (hsome hw')] using hw'
  · intro o id' p hp
    obtain ⟨w', hw'⟩ := h.known hp
    exact ⟨w', by simpa only [Function.update_of_ne (hsome hw')] using hw'⟩
  · intro o id' d w' hsending
    have hw' := h.target hsending
    simpa only [Function.update_of_ne (hsome hw')] using hw'

theorem Consistent.decideFailed (h : Consistent s) (hs : s.decideFailed w = some s') :
    Consistent s' := by
  obtain ⟨hidle, rfl⟩ := State.of_decideFailed hs
  refine h.congr ?_ ?_ rfl rfl (fun _ _ => rfl) rfl (fun _ => h.locked) fun _ _ _ _ => id
  · intro w'
    by_cases hne : w' = w
    · simp [hne, hidle, Waiter.review]
    · simp [hne]
  · intro w' id' hw'
    refine Function.update_of_ne ?_ ..
    rintro rfl
    rw [hidle] at hw'
    cases hw'

/-- A step of the waiter alone. -/
theorem Consistent.of_waiter (h : Consistent s) {p : Waiter} {chan : Option Decision}
    {entry : Option ℕ} (st : Status) (hid : (s.waiters w).review = some id)
    (hentry : entry = st.pending w) (hchan : chan = st.chan) (hp : st.Allows id p)
    (hpart : ∀ o, (s.operators o).part id = st.part o) :
    Consistent { s with
      pending := Function.update s.pending id entry
      chan := Function.update s.chan w chan
      waiters := Function.update s.waiters w p } :=
  h.of_review hid
    ⟨(Function.update_self ..).trans hentry, (Function.update_self ..).trans hchan,
      by simpa only [Function.update_self] using hp, hpart⟩
    (fun _ hne => Function.update_of_ne hne ..) (fun _ hne => Function.update_of_ne hne ..)
    (fun _ hne => Function.update_of_ne hne ..) (fun _ _ _ => rfl) rfl (fun _ => h.locked)
    fun _ _ _ _ => h.target

/-- A waiter that has not returned receives what is in its channel: an operator has sent it. -/
theorem Consistent.receiveAs (h : Consistent s)
    (hw : s.waiters w = .selecting id ∨ s.waiters w = .receiving id)
    (hs : s.receiveAs w id = some s') : Consistent s' := by
  have hid : (s.waiters w).review = some id := by
    rcases hw with hw | hw <;> rw [hw, Waiter.review]
  obtain ⟨d, hd, rfl⟩ := State.of_receiveAs hs
  obtain ⟨st, hst⟩ := h.shows hid
  have hchan := hst.chan.symm.trans hd
  cases st with
  | delivered o d' =>
      cases hchan
      have := h.of_waiter (.answered o d) hid hst.pending rfl rfl hst.part
      simpa only [Function.update_eq_self, Status.chan] using this
  | _ => cases hchan

theorem Consistent.receive (h : Consistent s) (hs : s.receive w = some s') : Consistent s' := by
  obtain ⟨id, hw, hs⟩ := State.of_receive hs
  exact h.receiveAs (.inl hw) hs

theorem Consistent.claimReceive (h : Consistent s) (hs : s.claimReceive w = some s') :
    Consistent s' := by
  obtain ⟨id, hw, hs⟩ := State.of_claimReceive hs
  exact h.receiveAs (.inr hw) hs

theorem Consistent.giveUp {cause : Cause} (h : Consistent s) (hs : s.giveUp w cause = some s') :
    Consistent s' := by
  obtain ⟨id, hw, rfl⟩ := State.of_giveUp hs
  have hid : (s.waiters w).review = some id := by rw [hw, Waiter.review]
  obtain ⟨st, hst⟩ := h.shows hid
  -- the stages in which a waiter may be in its `select` are those in which it may claim
  have hp : st.Allows id (.claiming id cause) := by
    have hwaiter := hst.waiter
    rw [hw] at hwaiter
    cases st with
    | queued => exact .inr ⟨cause, rfl⟩
    | taken o d => exact .inr ⟨cause, rfl⟩
    | delivered o d => exact .inr (.inl ⟨cause, rfl⟩)
    | answered o d => cases hwaiter
    | abandoned cause => cases hwaiter
  have := h.of_waiter st hid hst.pending hst.chan hp hst.part
  simpa only [Function.update_eq_self] using this

/-- Under the lock, nobody is between the removal of an entry and the send. -/
theorem Consistent.not_taken (h : Consistent s) (hmu : s.mu = none)
    (hst : Shows s w id (.taken o d)) : False := by
  have hpart := hst.part o
  rw [Status.part, if_pos rfl] at hpart
  cases ho : s.operators o with
  | sending id' d' w' =>
      rw [h.locked (by rw [ho, Operator.locks])] at hmu
      cases hmu
  | idle => simp [ho, Operator.part] at hpart
  | sent id' d' => simp [ho, Operator.part] at hpart
  | returned id' d' ok => cases ok <;> simp [ho, Operator.part] at hpart

theorem Consistent.claim (h : Consistent s) (hs : s.claim w = some s') : Consistent s' := by
  obtain ⟨id, cause, hw, hmu, rfl⟩ := State.of_claim hs
  have hid : (s.waiters w).review = some id := by rw [hw, Waiter.review]
  obtain ⟨st, hst⟩ := h.shows hid
  have hwaiter := hst.waiter
  rw [hw] at hwaiter
  cases st with
  | queued =>
      have hpending : s.pending id = some w := hst.pending
      have := h.of_waiter (.abandoned cause) hid rfl hst.chan rfl hst.part
      simpa only [hpending, Option.isSome_some, if_pos, Function.update_eq_self, Status.pending]
        using this
  | taken o d => exact (h.not_taken hmu hst).elim
  | delivered o d =>
      have hpending : s.pending id = none := hst.pending
      have := h.of_waiter (.delivered o d) hid rfl hst.chan (.inr (.inr rfl)) hst.part
      simpa only [hpending, Option.isSome_none, Bool.false_eq_true, if_neg, not_false_eq_true,
        Function.update_eq_self, Status.pending] using this
  | answered o d => cases hwaiter
  | abandoned cause => cases hwaiter

/-- A step of an operator's call in a review it takes part in. -/
theorem Consistent.of_operator (h : Consistent s) {chan : Option Decision} {entry : Option ℕ}
    (p : Operator) (mu : Option ℕ) (st : Status) (hid : (s.waiters w).review = some id)
    (hentry : entry = st.pending w) (hchan : chan = st.chan) (hp : st.Allows id (s.waiters w))
    (hpart : p.part id = st.part o)
    (hother : ∀ o', o' ≠ o → (s.operators o').part id = st.part o')
    (hpart' : ∀ id', id' ≠ id → p.part id' = (s.operators o).part id')
    (hlocks : p.locks = true → mu = some o) (hmu : ∀ o', o' ≠ o → s.mu = some o' → mu = some o')
    (htarget : ∀ id' d w', p = .sending id' d w' → (s.waiters w').review = some id') :
    Consistent { s with
      mu := mu
      pending := Function.update s.pending id entry
      chan := Function.update s.chan w chan
      operators := Function.update s.operators o p } := by
  refine h.of_review hid
    ⟨(Function.update_self ..).trans hentry, (Function.update_self ..).trans hchan, hp, ?_⟩
    (fun _ _ => rfl) (fun _ hne => Function.update_of_ne hne ..)
    (fun _ hne => Function.update_of_ne hne ..) ?_ rfl ?_ ?_
  · intro o'
    by_cases ho : o' = o
    · simpa [ho] using hpart
    · simpa [ho] using hother o' ho
  · intro o' id' hne
    by_cases ho : o' = o
    · simpa [ho] using hpart' id' hne
    · simp [ho]
  · intro o' hlock
    by_cases ho : o' = o
    · simp only [ho, Function.update_self] at hlock ⊢
      exact hlocks hlock
    · simp only [Function.update_of_ne ho] at hlock
      exact hmu o' ho (h.locked hlock)
  · intro o' id' d' w' hs'
    by_cases ho : o' = o
    · simp only [ho, Function.update_self] at hs'
      exact htarget id' d' w' hs'
    · simp only [Function.update_of_ne ho] at hs'
      exact h.target hs'

/-- An operator's call returns, with the part it had. -/
theorem Consistent.of_returned (h : Consistent s) {p : Operator} {mu : Option ℕ}
    (hpart : ∀ id', p.part id' = (s.operators o).part id') (hlocks : p.locks = false)
    (hmu : ∀ o', o' ≠ o → (s.operators o').locks = true → mu = some o') :
    Consistent { s with mu := mu, operators := Function.update s.operators o p } := by
  refine h.congr (fun _ => rfl) (fun _ _ _ => rfl) rfl rfl ?_ rfl ?_ ?_
  · intro o' id'
    by_cases ho : o' = o
    · simpa [ho] using hpart id'
    · simp [ho]
  · intro o' hlock
    by_cases ho : o' = o
    · simp [ho, hlocks] at hlock
    · simp only [Function.update_of_ne ho] at hlock
      exact hmu o' ho hlock
  · intro o' id' d' w' hs'
    by_cases ho : o' = o
    · simp only [ho, Function.update_self] at hs'
      simp [hs', Operator.locks] at hlocks
    · simpa only [Function.update_of_ne ho] using hs'

theorem Consistent.resolve (h : Consistent s) (hs : s.resolve o id d = some s') :
    Consistent s' := by
  obtain ⟨hidle, hmu, rfl | ⟨w, hw, rfl⟩⟩ := State.of_resolve hs
  · exact h.of_returned (fun id' => by simp [hidle, Operator.part]) rfl
      fun o' _ hlock => h.locked hlock
  · have hid := h.entry hw
    obtain ⟨st, hst⟩ := h.shows hid
    cases st with
    | queued =>
        have := h.of_operator (o := o) (.sending id d w) (some o) (.taken o d) hid rfl hst.chan hst.waiter
          (by simp [Operator.part, Status.part])
          (fun o' ho => by rw [hst.part]; simp [Status.part, ho])
          (fun id' hne => by simp [Operator.part, hne.symm, hidle])
          (fun _ => rfl) (fun o' _ hheld => by rw [hmu] at hheld; cases hheld)
          (by rintro id' d' w' ⟨⟩; exact hid)
        simpa only [Function.update_eq_self, Status.pending] using this
    | _ =>
        have := hst.pending.symm.trans hw
        cases this

/-- A call that sends next has its review to itself. -/
theorem Consistent.taken_of_sending (h : Consistent s) (ho : s.operators o = .sending id d w) :
    (s.waiters w).review = some id ∧ Shows s w id (.taken o d) := by
  have hid := h.target ho
  refine ⟨hid, ?_⟩
  obtain ⟨st, hst⟩ := h.shows hid
  have hpart := (hst.part o).symm
  rw [ho, Operator.part, if_pos rfl] at hpart
  cases st <;> simp only [Status.part, reduceCtorEq] at hpart <;> split at hpart <;> cases hpart
  next e => exact e ▸ hst

theorem Consistent.send (h : Consistent s) (hs : s.send o = some s') : Consistent s' := by
  obtain ⟨id, d, w, ho, rfl⟩ := State.of_send hs
  obtain ⟨hid, hst⟩ := h.taken_of_sending ho
  have := h.of_operator (o := o) (.sent id d) s.mu (.delivered o d) hid
    hst.pending rfl
    (hst.waiter.imp_right Or.inl)
    (by simp [Operator.part, Status.part])
    (fun o' hne => by rw [hst.part]; simp [Status.part, hne])
    (fun id' hne => by simp [Operator.part, hne.symm, ho])
    (fun _ => h.locked (by rw [ho, Operator.locks])) (fun o' _ hheld => hheld)
    (by rintro id' d' w' ⟨⟩)
  simpa only [Function.update_eq_self, Status.chan] using this

theorem Consistent.unlock (h : Consistent s) (hs : s.unlock o = some s') : Consistent s' := by
  obtain ⟨id, d, ho, rfl⟩ := State.of_unlock hs
  refine h.of_returned (fun id' => by simp [ho, Operator.part]) rfl fun o' hne hlock => ?_
  -- two calls cannot both hold the lock
  have hmu := h.locked (o := o) (by rw [ho, Operator.locks])
  rw [h.locked hlock, Option.some.injEq] at hmu
  exact absurd hmu hne

theorem Consistent.step {timeout : ℤ} {e : Event} (h : Consistent s)
    (hs : step timeout s e = some s') : Consistent s' := by
  cases e with
  | decide w id => exact h.decide hs
  | decideFailed w => exact h.decideFailed hs
  | receive w => exact h.receive hs
  | timeout w =>
      rw [ManualApprover.step] at hs
      split at hs
      · exact h.giveUp hs
      · cases hs
  | cancel w => exact h.giveUp hs
  | claim w => exact h.claim hs
  | claimReceive w => exact h.claimReceive hs
  | approve o id => exact h.resolve hs
  | deny o id reason => exact h.resolve hs
  | send o => exact h.send hs
  | unlock o => exact h.unlock hs

end Step

/-! ## What has returned stays so -/

/-- The calls that have returned in `s` have returned the same in `s'`. -/
structure Later (s s' : State) : Prop where
  waiters : ∀ w id out, s.waiters w = .returned id out → s'.waiters w = .returned id out
  operators : ∀ o id d ok, s.operators o = .returned id d ok → s'.operators o = .returned id d ok

section Later

variable {s s' s'' : State} {w o : ℕ}

theorem Later.trans (h : Later s s') (h' : Later s' s'') : Later s s'' where
  waiters w id out hw := h'.waiters w id out (h.waiters w id out hw)
  operators o id d ok ho := h'.operators o id d ok (h.operators o id d ok ho)

/-- A step of a `Decide` call that has not returned. -/
theorem later_of_waiter {p : Waiter} (hw : ∀ id out, s.waiters w ≠ .returned id out)
    (hwaiters : s'.waiters = Function.update s.waiters w p)
    (hoperators : s'.operators = s.operators) : Later s s' := by
  constructor
  · intro w' id out hw'
    have hne : w' ≠ w := by
      rintro rfl
      exact hw id out hw'
    rw [hwaiters, Function.update_of_ne hne, hw']
  · intro o id d ok ho
    rw [hoperators, ho]

/-- A step of an operator's call that has not returned. -/
theorem later_of_operator {p : Operator} (ho : ∀ id d ok, s.operators o ≠ .returned id d ok)
    (hoperators : s'.operators = Function.update s.operators o p)
    (hwaiters : s'.waiters = s.waiters) : Later s s' := by
  constructor
  · intro w id out hw
    rw [hwaiters, hw]
  · intro o' id d ok ho'
    have hne : o' ≠ o := by
      rintro rfl
      exact ho id d ok ho'
    rw [hoperators, Function.update_of_ne hne, ho']

theorem later_of_receiveAs {id : Bytes} (hw : ∀ id out, s.waiters w ≠ .returned id out)
    (hs : s.receiveAs w id = some s') : Later s s' := by
  obtain ⟨d, -, rfl⟩ := State.of_receiveAs hs
  exact later_of_waiter hw rfl rfl

theorem later_of_giveUp {cause : Cause} (hs : s.giveUp w cause = some s') : Later s s' := by
  obtain ⟨id, hw, rfl⟩ := State.of_giveUp hs
  exact later_of_waiter (by simp [hw]) rfl rfl

theorem later_of_resolve {id : Bytes} {d : Decision} (hs : s.resolve o id d = some s') :
    Later s s' := by
  obtain ⟨hidle, -, rfl | ⟨w, -, rfl⟩⟩ := State.of_resolve hs
  · exact later_of_operator (by simp [hidle]) rfl rfl
  · exact later_of_operator (by simp [hidle]) rfl rfl

theorem later_of_step {timeout : ℤ} {e : Event} (hs : step timeout s e = some s') : Later s s' := by
  cases e with
  | decide w id =>
      obtain ⟨hidle, -, rfl⟩ := State.of_decide hs
      exact later_of_waiter (by simp [hidle]) rfl rfl
  | decideFailed w =>
      obtain ⟨hidle, rfl⟩ := State.of_decideFailed hs
      exact later_of_waiter (by simp [hidle]) rfl rfl
  | receive w =>
      obtain ⟨id, hw, hs⟩ := State.of_receive hs
      exact later_of_receiveAs (by simp [hw]) hs
  | timeout w =>
      rw [step] at hs
      split at hs
      · exact later_of_giveUp hs
      · cases hs
  | cancel w => exact later_of_giveUp hs
  | claim w =>
      obtain ⟨id, cause, hw, -, rfl⟩ := State.of_claim hs
      exact later_of_waiter (by simp [hw]) rfl rfl
  | claimReceive w =>
      obtain ⟨id, hw, hs⟩ := State.of_claimReceive hs
      exact later_of_receiveAs (by simp [hw]) hs
  | approve o id => exact later_of_resolve hs
  | deny o id reason => exact later_of_resolve hs
  | send o =>
      obtain ⟨id, d, w, ho, rfl⟩ := State.of_send hs
      exact later_of_operator (by simp [ho]) rfl rfl
  | unlock o =>
      obtain ⟨id, d, ho, rfl⟩ := State.of_unlock hs
      exact later_of_operator (by simp [ho]) rfl rfl

theorem later_of_run {timeout : ℤ} {es : List Event} (hrun : run (step timeout) s es = some s') :
    Later s s' :=
  invariant (I := Later s) (fun _ _ _ hs h => h.trans (later_of_step hs)) hrun
    ⟨fun _ _ _ => id, fun _ _ _ _ => id⟩

end Later

/-! ## The single winner -/

/-- The agreement between the calls, seen at two moments of a run: `s`, and `s'` later. -/
structure SingleWinner (timeout : ℤ) (s s' : State) : Prop where
  /-- For each review at most one call of an operator returns true. -/
  unique : ∀ id o d o' d', s.operators o = .returned id d true →
    s'.operators o' = .returned id d' true → o = o'
  /-- What an operator was told to have decided is what the waiter returns, whoever returns first. -/
  decides : ∀ id o d w out,
    (s.operators o = .returned id d true ∧ s'.waiters w = .returned id out) ∨
      (s.waiters w = .returned id out ∧ s'.operators o = .returned id d true) →
    out.result = .ok d
  /-- Of a review that its waiter gave up, no operator was or is told to have decided it. -/
  gaveUp : ∀ id w cause, s.waiters w = .returned id (.gaveUp cause) →
    ∀ o d, s.operators o ≠ .returned id d true ∧ s'.operators o ≠ .returned id d true
  /-- The send in `resolve` does not block. -/
  sends : ∀ id o d w, s.operators o = .sending id d w → (step timeout s (.send o)).isSome = true
  /-- The receive in `claim` does not block. -/
  receives : ∀ id w, s.waiters w = .receiving id →
    (step timeout s (.claimReceive w)).isSome = true
  /-- A review whose waiter has returned is not pending. -/
  removed : ∀ id w out, s.waiters w = .returned id out →
    s.pending id = none ∧ s'.pending id = none

section Winner

variable {s : State} {w o o' : ℕ} {id : Bytes} {d d' : Decision} {out : Outcome}

theorem part_of_returned (ho : s.operators o = .returned id d true) :
    (s.operators o).part id = some (d, true) := by
  rw [ho, Operator.part, if_pos rfl]

/-- A review has one call of an operator with a part in it. -/
theorem Status.part_unique {st : Status} {p p' : Decision × Bool} (h : st.part o = some p)
    (h' : st.part o' = some p') : o = o' := by
  cases st <;> simp only [Status.part, reduceCtorEq] at h h' <;> split at h <;> split at h' <;>
    simp_all

theorem Consistent.winner_unique (h : Consistent s) (ho : s.operators o = .returned id d true)
    (ho' : s.operators o' = .returned id d' true) : o = o' := by
  obtain ⟨w, hw⟩ := h.known (part_of_returned ho)
  obtain ⟨st, hst⟩ := h.shows hw
  exact Status.part_unique ((hst.part o).symm.trans (part_of_returned ho))
    ((hst.part o').symm.trans (part_of_returned ho'))

/-- The end of a review: answered with the decision of one operator's call, or abandoned with no
part of any. -/
theorem Consistent.of_returned_waiter (h : Consistent s) (hw : s.waiters w = .returned id out) :
    s.pending id = none ∧ (∀ o d, s.operators o = .returned id d true → out = .received d) := by
  obtain ⟨st, hst⟩ := h.shows (show (s.waiters w).review = some id by rw [hw, Waiter.review])
  have hwaiter := hst.waiter
  have hpending := hst.pending
  rw [hw] at hwaiter
  cases st with
  | queued => rcases hwaiter with hwaiter | ⟨_, hwaiter⟩ <;> cases hwaiter
  | taken o d => rcases hwaiter with hwaiter | ⟨_, hwaiter⟩ <;> cases hwaiter
  | delivered o d => rcases hwaiter with hwaiter | ⟨_, hwaiter⟩ | hwaiter <;> cases hwaiter
  | answered o d =>
      cases hwaiter
      refine ⟨hpending, fun o' d' ho' => ?_⟩
      have hpart := (hst.part o').symm.trans (part_of_returned ho')
      rw [Status.part] at hpart
      split at hpart <;> cases hpart
      rfl
  | abandoned cause =>
      refine ⟨hpending, fun o' d' ho' => ?_⟩
      have hpart := (hst.part o').symm.trans (part_of_returned ho')
      cases hpart

end Winner

/-- Every review has exactly one resolver: in every run of the approver, an operator who is told to
have decided a review has decided what its requester receives, and nobody blocks on the way. -/
theorem single_winner (timeout : ℤ) {es es' : List Event} {s s' : State}
    (hrun : run (step timeout) State.new es = some s) (hrun' : run (step timeout) s es' = some s') :
    SingleWinner timeout s s' := by
  have hs : Consistent s := invariant (fun _ _ _ hs h => h.step hs) hrun consistent_new
  have hs' : Consistent s' := invariant (fun _ _ _ hs h => h.step hs) hrun' hs
  have hlater := later_of_run hrun'
  refine ⟨?_, ?_, ?_, ?_, ?_, ?_⟩
  · intro id o d o' d' ho ho'
    exact hs'.winner_unique (hlater.operators o id d true ho) ho'
  · rintro id o d w out (⟨ho, hw⟩ | ⟨hw, ho⟩)
    · rw [(hs'.of_returned_waiter hw).2 o d (hlater.operators o id d true ho), Outcome.result]
    · rw [(hs'.of_returned_waiter (hlater.waiters w id out hw)).2 o d ho, Outcome.result]
  · intro id w cause hw o d
    constructor
    · intro ho
      cases (hs.of_returned_waiter hw).2 o d ho
    · intro ho
      cases (hs'.of_returned_waiter (hlater.waiters w id _ hw)).2 o d ho
  · intro id o d w ho
    have hchan : s.chan w = none := (hs.taken_of_sending ho).2.chan
    simp [step, State.send, ho, hchan]
  · intro id w hw
    obtain ⟨st, hst⟩ := hs.shows (show (s.waiters w).review = some id by rw [hw, Waiter.review])
    have hwaiter := hst.waiter
    rw [hw] at hwaiter
    cases st with
    | delivered o d =>
        have hchan : s.chan w = some d := hst.chan
        simp [step, State.claimReceive, State.receiveAs, hw, hchan]
    | queued => rcases hwaiter with hwaiter | ⟨_, hwaiter⟩ <;> cases hwaiter
    | taken o d => rcases hwaiter with hwaiter | ⟨_, hwaiter⟩ <;> cases hwaiter
    | answered o d => cases hwaiter
    | abandoned cause => cases hwaiter
  · intro id w out hw
    exact ⟨(hs.of_returned_waiter hw).1,
      (hs'.of_returned_waiter (hlater.waiters w id out hw)).1⟩

/-- The timeout fires while an operator is sending, and a second operator comes too late. -/
def race : List Event :=
  [.decide 0 [7], .approve 1 [7], .timeout 0, .send 1, .unlock 1, .claim 0, .deny 2 [7] [],
    .claimReceive 0]

theorem single_winner_race :
    ∃ s, run (step Time.second) State.new race = some s ∧
      s.waiters 0 = .returned [7] (.received ⟨.allow, .text (Bytes.ascii "approved")⟩) ∧
      s.operators 2 = .returned [7] ⟨.deny, .text []⟩ false ∧ SingleWinner Time.second s s := by
  have h : (run (step Time.second) State.new race).isSome = true := by decide +kernel
  exact ⟨Option.get _ h, (Option.some_get h).symm, by decide +kernel +revert,
    by decide +kernel +revert,
    single_winner Time.second (Option.some_get h).symm (show run _ _ [] = _ from rfl)⟩

end Sanad.Policy.ManualApprover
