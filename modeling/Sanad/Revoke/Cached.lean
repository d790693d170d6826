import Mathlib.Data.Finset.SDiff
import Mathlib.Logic.Function.Basic
import Mathlib.Algebra.Order.Group.Int
import Sanad.Common.Transition
import Sanad.Types

/-! # The cached kill-switch

`revoke/cached.go`: a local snapshot of a shared source, which any number of goroutines refresh and
write at once. A refresh reads the source, reads the clock and swaps the snapshot in three separate
steps; a write goes to the source first and to the snapshot later. Other processes write to the
source as they like.

Two properties depend on how these steps interleave: that a revocation is not lost once it has been
acknowledged, and that the snapshot of a store that calls itself fresh is no older than its bound.
-/

namespace Sanad.Revoke

/-- `DefaultMaxStaleness` -/
def defaultMaxStaleness : ℤ := 60 * Time.second

/-- `failureLogInterval` -/
def failureLogInterval : ℤ := 60 * Time.second

/-! ## The store -/

/-- `CachedStore`: the fields that its lock guards. The last three only decide what is logged. -/
structure CachedStore where
  snapshot : Finset Bytes
  /-- The time of the last successful refresh. -/
  lastOK : ℤ
  fails : ℕ
  staleLogged : Bool
  lastLog : ℤ

/-- The store before its first refresh. -/
def CachedStore.new : CachedStore := ⟨∅, 0, 0, false, 0⟩

/-- The locked part of `Refresh`, after a successful read. -/
def CachedStore.swap (c : CachedStore) (ids : Finset Bytes) (now : ℤ) : CachedStore :=
  { c with snapshot := ids, lastOK := now, fails := 0, staleLogged := false }

/-- The locked part of `refreshFailed`. -/
def CachedStore.refreshFailed (maxStale : ℤ) (c : CachedStore) (now : ℤ) : CachedStore :=
  let fails := c.fails + 1
  let first := fails == 1
  let crossed := decide (maxStale > 0 ∧ now - c.lastOK > maxStale) && !c.staleLogged
  let heartbeat := !first && !crossed && decide (now - c.lastLog ≥ failureLogInterval)
  { c with
    fails := fails
    staleLogged := c.staleLogged || crossed
    lastLog := if first || crossed || heartbeat then now else c.lastLog }

/-- `CachedStore.Revoked` -/
def CachedStore.revoked (c : CachedStore) (id : Bytes) : Bool := id ∈ c.snapshot

/-- The error of `CheckFresh`. -/
inductive StaleError where
  /-- `kill-switch snapshot is stale: last successful refresh %s ago (max %s)` -/
  | stale (age maxStale : ℤ)
  deriving DecidableEq, Repr

/-- `CachedStore.CheckFresh` at the time `now`. -/
def CachedStore.checkFresh (maxStale : ℤ) (c : CachedStore) (now : ℤ) : Except StaleError Unit :=
  if maxStale ≤ 0 then .ok ()
  else if now - c.lastOK > maxStale then .error (.stale (now - c.lastOK) maxStale)
  else .ok ()

/-! ## Interleavings -/

/-- Where a goroutine stands in a call of the store. -/
inductive Thread where
  | idle
  /-- In `Refresh`, with the list it read. -/
  | listed (ids : Finset Bytes)
  /-- In `Refresh`, with the list and the time it read after it. -/
  | stamped (ids : Finset Bytes) (now : ℤ)
  /-- In `Revoke`, which has written to the source. -/
  | revoking (ids : Finset Bytes)
  /-- In `Restore`, which has not written to the source yet. -/
  | restoring (ids : Finset Bytes)
  /-- In `Restore`, which has written to the source. -/
  | deleting (ids : Finset Bytes)
  deriving DecidableEq

/-- A store, the source behind it, the clock, and the goroutines. -/
structure State where
  store : CachedStore
  source : Finset Bytes
  time : ℤ
  threads : ℕ → Thread

/-- One step of some goroutine `t`, of another process that writes to the source, or of the clock. A
`Revoke` whose write to the source fails has no effect, and no event. -/
inductive Event where
  | tick (d : ℕ)
  | sourceRevoke (ids : Finset Bytes)
  | sourceRestore (ids : Finset Bytes)
  /-- `Refresh` reads the source. -/
  | list (t : ℕ)
  /-- `Refresh` fails to read the source. -/
  | listFailed (t : ℕ)
  /-- `Refresh` reads the clock. -/
  | stamp (t : ℕ)
  /-- `Refresh` swaps the snapshot, and returns. -/
  | install (t : ℕ)
  /-- `Revoke` writes to the source. -/
  | revoke (t : ℕ) (ids : Finset Bytes)
  /-- `Revoke` updates the snapshot, and returns. -/
  | revokeReturn (t : ℕ)
  /-- `Restore` is called. -/
  | restore (t : ℕ) (ids : Finset Bytes)
  /-- `Restore` writes to the source. -/
  | restoreWrite (t : ℕ)
  /-- `Restore` fails to write to the source, and returns. -/
  | restoreFailed (t : ℕ)
  /-- `Restore` updates the snapshot, and returns. -/
  | restoreReturn (t : ℕ)

/-- A goroutine moves on. -/
def State.setThread (s : State) (t : ℕ) (th : Thread) : State :=
  { s with threads := Function.update s.threads t th }

/-- The effect of an event, none if the goroutine is not there. -/
def step (maxStale : ℤ) (s : State) : Event → Option State
  | .tick d => some { s with time := s.time + d }
  | .sourceRevoke ids => some { s with source := s.source ∪ ids }
  | .sourceRestore ids => some { s with source := s.source \ ids }
  | .list t =>
    match s.threads t with
    | .idle => some (s.setThread t (.listed s.source))
    | _ => none
  | .listFailed t =>
    match s.threads t with
    | .idle => some { s with store := s.store.refreshFailed maxStale s.time }
    | _ => none
  | .stamp t =>
    match s.threads t with
    | .listed ids => some (s.setThread t (.stamped ids s.time))
    | _ => none
  | .install t =>
    match s.threads t with
    | .stamped ids now => some { s.setThread t .idle with store := s.store.swap ids now }
    | _ => none
  | .revoke t ids =>
    match s.threads t with
    | .idle => some { s.setThread t (.revoking ids) with source := s.source ∪ ids }
    | _ => none
  | .revokeReturn t =>
    match s.threads t with
    | .revoking ids =>
      some { s.setThread t .idle with
        store := { s.store with snapshot := s.store.snapshot ∪ ids } }
    | _ => none
  | .restore t ids =>
    match s.threads t with
    | .idle => some (s.setThread t (.restoring ids))
    | _ => none
  | .restoreWrite t =>
    match s.threads t with
    | .restoring ids => some { s.setThread t (.deleting ids) with source := s.source \ ids }
    | _ => none
  | .restoreFailed t =>
    match s.threads t with
    | .restoring _ => some (s.setThread t .idle)
    | _ => none
  | .restoreReturn t =>
    match s.threads t with
    | .deleting ids =>
      some { s.setThread t .idle with
        store := { s.store with snapshot := s.store.snapshot \ ids } }
    | _ => none

/-- `NewCachedStore` begins: no refresh has succeeded, and no goroutine is in a call. The clock is
not before the zero time. -/
def State.new (source : Finset Bytes) (time : ℕ) : State := ⟨.new, source, time, fun _ => .idle⟩

/-- What the events do, with the place of the goroutine that takes the step. -/
inductive Step (maxStale : ℤ) (s : State) : Event → State → Prop
  | tick (d : ℕ) : Step maxStale s (.tick d) { s with time := s.time + d }
  | sourceRevoke (ids : Finset Bytes) :
      Step maxStale s (.sourceRevoke ids) { s with source := s.source ∪ ids }
  | sourceRestore (ids : Finset Bytes) :
      Step maxStale s (.sourceRestore ids) { s with source := s.source \ ids }
  | list {t : ℕ} (h : s.threads t = .idle) :
      Step maxStale s (.list t) (s.setThread t (.listed s.source))
  | listFailed {t : ℕ} (h : s.threads t = .idle) :
      Step maxStale s (.listFailed t) { s with store := s.store.refreshFailed maxStale s.time }
  | stamp {t : ℕ} {ids : Finset Bytes} (h : s.threads t = .listed ids) :
      Step maxStale s (.stamp t) (s.setThread t (.stamped ids s.time))
  | install {t : ℕ} {ids : Finset Bytes} {now : ℤ} (h : s.threads t = .stamped ids now) :
      Step maxStale s (.install t) { s.setThread t .idle with store := s.store.swap ids now }
  | revoke {t : ℕ} (ids : Finset Bytes) (h : s.threads t = .idle) :
      Step maxStale s (.revoke t ids)
        { s.setThread t (.revoking ids) with source := s.source ∪ ids }
  | revokeReturn {t : ℕ} {ids : Finset Bytes} (h : s.threads t = .revoking ids) :
      Step maxStale s (.revokeReturn t) { s.setThread t .idle with
        store := { s.store with snapshot := s.store.snapshot ∪ ids } }
  | restore {t : ℕ} (ids : Finset Bytes) (h : s.threads t = .idle) :
      Step maxStale s (.restore t ids) (s.setThread t (.restoring ids))
  | restoreWrite {t : ℕ} {ids : Finset Bytes} (h : s.threads t = .restoring ids) :
      Step maxStale s (.restoreWrite t)
        { s.setThread t (.deleting ids) with source := s.source \ ids }
  | restoreFailed {t : ℕ} {ids : Finset Bytes} (h : s.threads t = .restoring ids) :
      Step maxStale s (.restoreFailed t) (s.setThread t .idle)
  | restoreReturn {t : ℕ} {ids : Finset Bytes} (h : s.threads t = .deleting ids) :
      Step maxStale s (.restoreReturn t) { s.setThread t .idle with
        store := { s.store with snapshot := s.store.snapshot \ ids } }

theorem step_eq_some {maxStale : ℤ} {s s' : State} {e : Event} (h : step maxStale s e = some s') :
    Step maxStale s e s' := by
  cases e <;> simp only [step] at h
  case tick d => cases h; exact .tick d
  case sourceRevoke ids => cases h; exact .sourceRevoke ids
  case sourceRestore ids => cases h; exact .sourceRestore ids
  case list t => split at h <;> cases h; exact .list ‹_›
  case listFailed t => split at h <;> cases h; exact .listFailed ‹_›
  case stamp t => split at h <;> cases h; exact .stamp ‹_›
  case install t => split at h <;> cases h; exact .install ‹_›
  case revoke t ids => split at h <;> cases h; exact .revoke ids ‹_›
  case revokeReturn t => split at h <;> cases h; exact .revokeReturn ‹_›
  case restore t ids => split at h <;> cases h; exact .restore ids ‹_›
  case restoreWrite t => split at h <;> cases h; exact .restoreWrite ‹_›
  case restoreFailed t => split at h <;> cases h; exact .restoreFailed ‹_›
  case restoreReturn t => split at h <;> cases h; exact .restoreReturn ‹_›

theorem threads_setThread (s : State) (t u : ℕ) (th : Thread) :
    (s.setThread t th).threads u = if u = t then th else s.threads u :=
  Function.update_apply s.threads t th u

/-! ## No lost revocation -/

/-- The goroutine is in a `Restore` of the id. -/
def Thread.restores (id : Bytes) : Thread → Bool
  | .restoring ids => id ∈ ids
  | .deleting ids => id ∈ ids
  | _ => false

/-- The event is a call of `Restore` on the store or on the source for the id. -/
def Event.restoreCalled (id : Bytes) : Event → Bool
  | .sourceRestore ids => id ∈ ids
  | .restore _ ids => id ∈ ids
  | _ => false

/-- A refresh swaps in a list that has every id on the source by then, and a revocation returns with
its ids still on the source. -/
def keepsUp (s : State) : Event → Bool
  | .install t =>
    match s.threads t with
    | .stamped ids _ => s.source ⊆ ids
    | _ => true
  | .revokeReturn t =>
    match s.threads t with
    | .revoking ids => ids ⊆ s.source
    | _ => true
  | _ => true

/-- The id is revoked, and nothing is under way that would restore it. -/
structure Holds (id : Bytes) (s : State) : Prop where
  source : id ∈ s.source
  snapshot : id ∈ s.store.snapshot
  threads : ∀ t, (s.threads t).restores id = false

/-- A goroutine moves on to something else than a `Restore` of the id. -/
theorem restores_setThread {id : Bytes} {s : State} {t : ℕ} {th : Thread}
    (h : ∀ u, (s.threads u).restores id = false) (hth : th.restores id = false) (u : ℕ) :
    ((s.setThread t th).threads u).restores id = false := by
  rw [threads_setThread]
  split
  · exact hth
  · exact h u

theorem Holds.step {maxStale : ℤ} {id : Bytes} {s s' : State} {e : Event} (hs : Holds id s)
    (hstep : Step maxStale s e s') (hkeeps : keepsUp s e = true)
    (hcall : e.restoreCalled id = false) : Holds id s' := by
  obtain ⟨hsource, hsnapshot, hthreads⟩ := hs
  cases hstep with
  | tick d => exact ⟨hsource, hsnapshot, hthreads⟩
  | sourceRevoke ids => exact ⟨Finset.mem_union_left _ hsource, hsnapshot, hthreads⟩
  | sourceRestore ids =>
      exact ⟨Finset.mem_sdiff.mpr ⟨hsource, of_decide_eq_false hcall⟩, hsnapshot, hthreads⟩
  | listFailed h => exact ⟨hsource, hsnapshot, hthreads⟩
  | install h =>
      simp only [keepsUp, h, decide_eq_true_eq] at hkeeps
      exact ⟨hsource, hkeeps hsource, restores_setThread hthreads rfl⟩
  | revoke ids h =>
      exact ⟨Finset.mem_union_left _ hsource, hsnapshot, restores_setThread hthreads rfl⟩
  | revokeReturn h =>
      exact ⟨hsource, Finset.mem_union_left _ hsnapshot, restores_setThread hthreads rfl⟩
  | restore ids h => exact ⟨hsource, hsnapshot, restores_setThread hthreads hcall⟩
  | @restoreWrite t ids h =>
      have hid := hthreads t
      rw [h] at hid
      exact ⟨Finset.mem_sdiff.mpr ⟨hsource, of_decide_eq_false hid⟩, hsnapshot,
        restores_setThread hthreads hid⟩
  | @restoreReturn t ids h =>
      have hid := hthreads t
      rw [h] at hid
      exact ⟨hsource, Finset.mem_sdiff.mpr ⟨hsnapshot, of_decide_eq_false hid⟩,
        restores_setThread hthreads rfl⟩
  | _ => exact ⟨hsource, hsnapshot, restores_setThread hthreads rfl⟩

/-- Once `Revoke` has returned, with no `Restore` of the id in flight then and none called since,
the id stays revoked, in every run in which refreshes and revocations keep up with the source. -/
theorem revoked_after_revoke (maxStale : ℤ) (s₁ s₂ s₃ : State) (t : ℕ) (ids : Finset Bytes)
    (id : Bytes) (es : List Event) (hrevoke : s₁.threads t = .revoking ids) (hid : id ∈ ids)
    (hreturn : step maxStale s₁ (.revokeReturn t) = some s₂)
    (hflight : ∀ u, (s₁.threads u).restores id = false)
    (hcalls : ∀ e ∈ es, e.restoreCalled id = false)
    (hrun : Transition.run (step maxStale) s₂ es = some s₃)
    (hkeeps : Transition.Along (step maxStale) (fun s e _ => keepsUp s e = true) s₁
      (.revokeReturn t :: es)) :
    s₃.store.revoked id = true := by
  rw [Transition.Along, hreturn] at hkeeps
  have hids : ids ⊆ s₁.source := by
    have := hkeeps.1
    simp only [keepsUp, hrevoke, decide_eq_true_eq] at this
    exact this
  have hholds : Holds id s₂ := by
    have hs₂ : s₂ = { s₁.setThread t .idle with
        store := { s₁.store with snapshot := s₁.store.snapshot ∪ ids } } := by
      rw [step, hrevoke] at hreturn
      exact (Option.some.inj hreturn).symm
    rw [hs₂]
    exact ⟨hids hid, Finset.mem_union_right _ hid, restores_setThread hflight rfl⟩
  have hfinal := (hkeeps.2.and (Transition.along_of_forall_mem hcalls)).invariant
    (fun s e s' hstep hC hs => hs.step (step_eq_some hstep) hC.1 hC.2) hrun hholds
  exact decide_eq_true hfinal.snapshot

/-- A revocation while no refresh is under way, and a refresh after it. -/
theorem revoked_after_revoke_then_refresh :
    let x := Bytes.ascii "x"
    let s₁ := (State.new {x} 0).setThread 1 (.revoking {x})
    ∃ s₃, Transition.run (step defaultMaxStaleness) s₁
        [.revokeReturn 1, .list 0, .stamp 0, .install 0] = some s₃ ∧ s₃.store.revoked x = true := by
  intro x s₁
  refine ⟨_, rfl, revoked_after_revoke defaultMaxStaleness s₁ _ _ 1 {x} x
    [.list 0, .stamp 0, .install 0] rfl (Finset.mem_singleton_self x) rfl ?_ ?_ rfl ?_⟩
  · exact restores_setThread (fun _ => rfl) rfl
  · decide
  · decide +kernel

/-- A refresh that read the source before a revocation and swaps after it undoes the revocation. -/
theorem swap_loses_revocation :
    let x := Bytes.ascii "x"
    let before := [.list 0, .stamp 0, .install 0, .list 0, .revoke 1 {x}]
    let after := [.stamp 0, .install 0]
    let runs := Transition.run (step defaultMaxStaleness) (State.new ∅ 0)
    (∀ e ∈ before ++ after, e.restoreCalled x = false) ∧
      (runs (before ++ [.revokeReturn 1])).map (fun s => s.store.revoked x) = some true ∧
      (runs (before ++ .revokeReturn 1 :: after)).map (fun s => s.store.revoked x) = some false := by
  decide +kernel

/-! ## The staleness bound -/

/-- No time that a refresh has read lies in the future. -/
structure Past (s : State) : Prop where
  lastOK : s.store.lastOK ≤ s.time
  stamped : ∀ t ids now, s.threads t = .stamped ids now → now ≤ s.time

/-- A refresh reads the clock with a list that has every id on the source by then, and a restoration
deletes no id from the snapshot that is on the source again. -/
def readsCurrent (s : State) : Event → Bool
  | .stamp t =>
    match s.threads t with
    | .listed ids => s.source ⊆ ids
    | _ => true
  | .restoreReturn t =>
    match s.threads t with
    | .deleting ids => ∀ id ∈ ids, id ∉ s.source
    | _ => true
  | _ => true

/-- Everything read from the source after the time `t₁` has the id. -/
structure Sees (t₁ : ℤ) (id : Bytes) (s : State) : Prop where
  snapshot : t₁ < s.store.lastOK → id ∈ s.store.snapshot
  stamped : ∀ t ids now, s.threads t = .stamped ids now → t₁ < now → id ∈ ids

/-- What holds of the lists with a time, a goroutine that moves on keeps, if it holds of its own. -/
theorem stamped_setThread {Q : Finset Bytes → ℤ → Prop} {s : State} {t : ℕ} {th : Thread}
    (h : ∀ u ids now, s.threads u = .stamped ids now → Q ids now)
    (hth : ∀ ids now, th = .stamped ids now → Q ids now) (u : ℕ) (ids : Finset Bytes) (now : ℤ)
    (hu : (s.setThread t th).threads u = .stamped ids now) : Q ids now := by
  rw [threads_setThread] at hu
  split at hu
  · exact hth ids now hu
  · exact h u ids now hu

theorem stamped_setThread_of_ne {Q : Finset Bytes → ℤ → Prop} {s : State} {t : ℕ} {th : Thread}
    (h : ∀ u ids now, s.threads u = .stamped ids now → Q ids now)
    (hth : ∀ ids now, th ≠ .stamped ids now) (u : ℕ) (ids : Finset Bytes) (now : ℤ)
    (hu : (s.setThread t th).threads u = .stamped ids now) : Q ids now :=
  stamped_setThread h (fun ids now heq => absurd heq (hth ids now)) u ids now hu

theorem Past.step {maxStale : ℤ} {s s' : State} {e : Event} (hs : Past s)
    (hstep : Step maxStale s e s') : Past s' := by
  obtain ⟨hlast, hstamped⟩ := hs
  cases hstep with
  | tick d =>
      refine ⟨?_, fun t ids now h => ?_⟩
      · exact hlast.trans (by simp)
      · exact (hstamped t ids now h).trans (by simp)
  | sourceRevoke ids => exact ⟨hlast, hstamped⟩
  | sourceRestore ids => exact ⟨hlast, hstamped⟩
  | listFailed h => exact ⟨hlast, hstamped⟩
  | stamp h =>
      refine ⟨hlast, stamped_setThread hstamped ?_⟩
      rintro ids now ⟨⟩
      exact le_rfl
  | install h => exact ⟨hstamped _ _ _ h, stamped_setThread_of_ne hstamped (by simp)⟩
  | _ => exact ⟨hlast, stamped_setThread_of_ne hstamped (by simp)⟩

theorem Sees.step {maxStale t₁ : ℤ} {id : Bytes} {s s' : State} {e : Event} (hs : Sees t₁ id s)
    (hstep : Step maxStale s e s') (hcurrent : readsCurrent s e = true) (hsource : id ∈ s.source) :
    Sees t₁ id s' := by
  obtain ⟨hsnapshot, hstamped⟩ := hs
  cases hstep with
  | tick d => exact ⟨hsnapshot, hstamped⟩
  | sourceRevoke ids => exact ⟨hsnapshot, hstamped⟩
  | sourceRestore ids => exact ⟨hsnapshot, hstamped⟩
  | listFailed h => exact ⟨hsnapshot, hstamped⟩
  | stamp h =>
      refine ⟨hsnapshot, stamped_setThread hstamped ?_⟩
      simp only [readsCurrent, h, decide_eq_true_eq] at hcurrent
      rintro ids now ⟨⟩ -
      exact hcurrent hsource
  | install h => exact ⟨hstamped _ _ _ h, stamped_setThread_of_ne hstamped (by simp)⟩
  | revokeReturn h =>
      exact ⟨fun hlast => Finset.mem_union_left _ (hsnapshot hlast),
        stamped_setThread_of_ne hstamped (by simp)⟩
  | restoreReturn h =>
      simp only [readsCurrent, h, decide_eq_true_eq] at hcurrent
      refine ⟨fun hlast => Finset.mem_sdiff.mpr ⟨hsnapshot hlast, ?_⟩,
        stamped_setThread_of_ne hstamped (by simp)⟩
      exact fun hid => hcurrent id hid hsource
  | _ => exact ⟨hsnapshot, stamped_setThread_of_ne hstamped (by simp)⟩

/-- While a store calls itself fresh, an id that has been on the source for longer than the bound is
revoked, in every run in which each refresh reads the clock with a list that is still current and no
restoration deletes an id that is on the source again. -/
theorem revoked_of_checkFresh (maxStale : ℤ) (hmax : 0 < maxStale) (source : Finset Bytes) (time : ℕ)
    (s₁ s₂ : State) (es₁ es₂ : List Event) (id : Bytes)
    (hrun₁ : Transition.run (step maxStale) (State.new source time) es₁ = some s₁)
    (hrun₂ : Transition.run (step maxStale) s₁ es₂ = some s₂)
    (hsource : Transition.Always (step maxStale) (fun s => id ∈ s.source) s₁ es₂)
    (hlong : s₁.time < s₂.time - maxStale)
    (hcurrent : Transition.Along (step maxStale) (fun s e _ => readsCurrent s e = true) s₁ es₂)
    (hfresh : s₂.store.checkFresh maxStale s₂.time = .ok ()) :
    s₂.store.revoked id = true := by
  have hpast : Past s₁ := by
    refine Transition.invariant (fun s e s' hstep hs => hs.step (step_eq_some hstep)) hrun₁
      ⟨Int.natCast_nonneg time, ?_⟩
    intro t ids now h
    cases h
  -- nothing has been read after the time of the first state yet
  have hsees : Sees s₁.time id s₁ :=
    ⟨fun hlast => absurd hlast (not_lt.mpr hpast.lastOK),
      fun t ids now h hnow => absurd hnow (not_lt.mpr (hpast.stamped t ids now h))⟩
  have hfinal : Sees s₁.time id s₂ ∧ id ∈ s₂.source := by
    refine (hcurrent.and hsource.2).invariant (I := fun s => Sees s₁.time id s ∧ id ∈ s.source)
      ?_ hrun₂ ⟨hsees, hsource.1⟩
    intro s e s' hstep hC hs
    exact ⟨hs.1.step (step_eq_some hstep) hC.1 hs.2, hC.2⟩
  have hrecent : s₂.time - s₂.store.lastOK ≤ maxStale := by
    rw [CachedStore.checkFresh, if_neg (not_le.mpr hmax)] at hfresh
    split at hfresh
    · cases hfresh
    · next h => exact not_lt.mp h
  exact decide_eq_true (hfinal.1.snapshot (by omega))

/-- A refresh whose reads happen at once, after an id has come to the source. -/
theorem revoked_of_checkFresh_sample :
    let x := Bytes.ascii "x"
    let es := [.tick 100000000000, .list 0, .stamp 0, .install 0]
    ∃ s₂, Transition.run (step defaultMaxStaleness) (State.new {x} 0) es = some s₂ ∧
      s₂.store.checkFresh defaultMaxStaleness s₂.time = .ok () ∧ s₂.store.revoked x = true := by
  intro x es
  refine ⟨_, rfl, rfl, revoked_of_checkFresh defaultMaxStaleness (by decide) {x} 0
    (State.new {x} 0) _ [] es x rfl rfl ?_ ?_ ?_ rfl⟩
  · decide +kernel
  · decide
  · decide +kernel

/-- A refresh that reads the clock a long time after the source takes its list for a recent one. -/
theorem slow_refresh_misses_revocation :
    let x := Bytes.ascii "x"
    let before := [.list 0, .stamp 0, .install 0, .list 0, .sourceRevoke {x}]
    let after := [.tick 100000000000, .stamp 0, .install 0]
    let maxStale := defaultMaxStaleness
    ∃ s₁ s₂, Transition.run (step maxStale) (State.new ∅ 0) before = some s₁ ∧
      Transition.run (step maxStale) s₁ after = some s₂ ∧
      Transition.Always (step maxStale) (fun s => x ∈ s.source) s₁ after ∧
      s₁.time < s₂.time - maxStale ∧
      s₂.store.checkFresh maxStale s₂.time = .ok () ∧ s₂.store.revoked x = false := by
  intro x before after maxStale
  refine ⟨_, _, rfl, rfl, ?_, ?_, rfl, ?_⟩
  · decide +kernel
  · decide
  · decide +kernel

end Sanad.Revoke
