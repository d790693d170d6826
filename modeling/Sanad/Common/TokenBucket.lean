import Mathlib.Algebra.Order.Ring.Defs
import Mathlib.Order.Monotone.Basic
import Mathlib.Tactic.Linarith
import Sanad.Common.Transition

/-! # Token buckets

A bucket earns tokens as time passes, up to a cap, and is asked for one of them again and again.
What it earns between two instants is bounded by what time is worth, a monotone function of the
instant; the clock may go back, which earns nothing.

The law behind every rate limit is conservation: what is spent in a run and what is left after it is
at most what was there before it and what time was worth meanwhile (`Earns.conservation`). The cap
enters once, through what was there at the start.
-/

namespace TokenBucket

variable {K T : Type} [CommRing K] [LinearOrder K]

/-- The tokens available, and when they were last topped up. -/
structure Bucket (K T : Type) where
  tokens : K
  last : T
  deriving DecidableEq, Repr

/-! ## Requests -/

/-- A request at an instant: the bucket is topped up, and a token is spent or not. Only a whole
token can be spent. -/
def request (topUp : Bucket K T → T → Bucket K T) (b : Bucket K T) (c : T × Bool) :
    Option (Bucket K T) :=
  let b := topUp b c.1
  if c.2 then
    if 1 ≤ b.tokens then some { b with tokens := b.tokens - 1 } else none
  else some b

/-- The number of tokens that requests spend. -/
def spent (cs : List (T × Bool)) : ℕ := cs.countP fun c => c.2

variable {b b' : Bucket K T}

/-- What a request can do. -/
theorem request_eq_some_iff {topUp : Bucket K T → T → Bucket K T} {c : T × Bool} :
    request topUp b c = some b' ↔
      (c.2 = true ∧ 1 ≤ (topUp b c.1).tokens ∧
        b' = ⟨(topUp b c.1).tokens - 1, (topUp b c.1).last⟩) ∨
      (c.2 = false ∧ b' = topUp b c.1) := by
  obtain ⟨now, spend⟩ := c
  cases spend with
  | false => simp [request, eq_comm]
  | true => by_cases h : 1 ≤ (topUp b now).tokens <;> simp [request, h, eq_comm]

/-- A request leaves the instant of its top-up. -/
theorem request_last {topUp : Bucket K T → T → Bucket K T} {c : T × Bool}
    (h : request topUp b c = some b') : b'.last = (topUp b c.1).last := by
  obtain ⟨-, -, rfl⟩ | ⟨-, rfl⟩ := request_eq_some_iff.mp h <;> rfl

/-- Two ways of topping up that agree on what the requests can see give the same run. -/
theorem run_congr {topUp topUp' : Bucket K T → T → Bucket K T} (P : Bucket K T → Prop)
    {cs : List (T × Bool)} (heq : ∀ b, P b → ∀ c ∈ cs, topUp b c.1 = topUp' b c.1)
    (hP : ∀ b b', P b → ∀ c ∈ cs, request topUp b c = some b' → P b') (hb : P b) :
    Transition.run (request topUp) b cs = Transition.run (request topUp') b cs := by
  induction cs generalizing b with
  | nil => rfl
  | cons c cs ih =>
      have hone : request topUp b c = request topUp' b c := by
        rw [request, request, heq b hb c List.mem_cons_self]
      rw [Transition.run, Transition.run, ← hone]
      cases hrequest : request topUp b c with
      | none => rfl
      | some b₁ =>
          exact ih (fun b hb c' hc' => heq b hb c' (List.mem_cons_of_mem c hc'))
            (fun b b' hb c' hc' => hP b b' hb c' (List.mem_cons_of_mem c hc'))
            (hP b b₁ hb c List.mem_cons_self hrequest)

/-! ## Refilling -/

variable [LinearOrder T] {burst : K} {earn : T → T → K} {worth : T → K}

/-- Top up with what has been earned since the last time, as far as the cap allows. -/
def refill (burst : K) (earn : T → T → K) (b : Bucket K T) (now : T) : Bucket K T :=
  if b.last < now then ⟨min burst (b.tokens + earn b.last now), now⟩ else b

theorem refill_of_le {now : T} (h : now ≤ b.last) : refill burst earn b now = b :=
  if_neg (not_lt.mpr h)

theorem refill_last (burst : K) (earn : T → T → K) (b : Bucket K T) (now : T) :
    (refill burst earn b now).last = max b.last now := by
  rw [refill]
  split
  · next hlt => exact (max_eq_right hlt.le).symm
  · next hge => exact (max_eq_left (not_lt.mp hge)).symm

/-- The last top-up is as late as the requests can make it. -/
theorem last_le {cs : List (T × Bool)}
    (h : Transition.run (request (refill burst earn)) b cs = some b') {latest : T}
    (hcs : ∀ c ∈ cs, c.1 ≤ latest) : b'.last ≤ max b.last latest := by
  induction cs generalizing b with
  | nil =>
      obtain rfl := Option.some.inj h
      exact le_max_left _ _
  | cons c cs ih =>
      obtain ⟨b₁, hrequest, hrun⟩ := Transition.run_cons_eq_some_iff.mp h
      have hle := ih hrun fun c' hc' => hcs c' (List.mem_cons_of_mem c hc')
      rw [request_last hrequest, refill_last, max_assoc,
        max_eq_right (hcs c List.mem_cons_self)] at hle
      exact hle

/-! ## Conservation -/

variable [IsStrictOrderedRing K]

/-- Between two instants a bucket earns something, and no more than time is worth. -/
structure Earns (earn : T → T → K) (worth : T → K) : Prop where
  monotone : Monotone worth
  nonneg : ∀ s t, s < t → 0 ≤ earn s t
  le : ∀ s t, s < t → earn s t ≤ worth t - worth s

namespace Earns

/-- What a refill adds. -/
theorem refill_le (he : Earns earn worth) (burst : K) (b : Bucket K T) (now : T) :
    (refill burst earn b now).tokens ≤
      b.tokens + (worth (refill burst earn b now).last - worth b.last) := by
  rw [refill]
  split
  · next hlt =>
      have hearn := he.le b.last now hlt
      have hmin := min_le_right burst (b.tokens + earn b.last now)
      dsimp only
      linarith
  · simp

theorem refill_nonneg (he : Earns earn worth) (hburst : 0 ≤ burst) (h : 0 ≤ b.tokens) (now : T) :
    0 ≤ (refill burst earn b now).tokens := by
  rw [refill]
  split
  · next hlt => exact le_min hburst (add_nonneg h (he.nonneg b.last now hlt))
  · exact h

/-- One request: what it spends and leaves is what was there and what was earned. -/
theorem request_conserves (he : Earns earn worth) {c : T × Bool}
    (h : request (refill burst earn) b c = some b') :
    (spent [c] : K) + b'.tokens ≤ b.tokens + (worth b'.last - worth b.last) := by
  have hrefill := he.refill_le burst b c.1
  obtain ⟨hspend, -, rfl⟩ | ⟨hspend, rfl⟩ := request_eq_some_iff.mp h
  · simp only [spent, List.countP_singleton, hspend, if_true, Nat.cast_one]
    linarith
  · simpa [spent, hspend] using hrefill

/-- A run: what it spends and leaves is what was there and what was earned. -/
theorem conservation (he : Earns earn worth) {cs : List (T × Bool)}
    (h : Transition.run (request (refill burst earn)) b cs = some b') :
    (spent cs : K) + b'.tokens ≤ b.tokens + (worth b'.last - worth b.last) := by
  induction cs generalizing b with
  | nil =>
      obtain rfl := Option.some.inj h
      simp [spent]
  | cons c cs ih =>
      obtain ⟨b₁, hrequest, hrun⟩ := Transition.run_cons_eq_some_iff.mp h
      have hone := he.request_conserves hrequest
      have hrest := ih hrun
      have hcount : spent (c :: cs) = spent [c] + spent cs := by
        rw [spent, ← List.singleton_append, List.countP_append]
        rfl
      rw [hcount, Nat.cast_add]
      linarith

theorem request_nonneg (he : Earns earn worth) (hburst : 0 ≤ burst) {c : T × Bool}
    (h : request (refill burst earn) b c = some b') (hb : 0 ≤ b.tokens) : 0 ≤ b'.tokens := by
  obtain ⟨-, hone, rfl⟩ | ⟨-, rfl⟩ := request_eq_some_iff.mp h
  · exact sub_nonneg.mpr hone
  · exact he.refill_nonneg hburst hb c.1

end Earns

/-- The rate limit: from a bucket that has been topped up at the first instant or later, a run up to
the latest one spends at most the cap and what the time between the two is worth. -/
theorem Earns.spent_le (he : Earns earn worth) (hburst : 0 ≤ burst) {cs : List (T × Bool)}
    (h : Transition.run (request (refill burst earn)) b cs = some b') (hb : 0 ≤ b.tokens)
    (hcap : b.tokens ≤ burst) {first latest : T} (hfirst : first ≤ b.last) (hle : first ≤ latest)
    (hcs : ∀ c ∈ cs, c.1 ≤ latest) : (spent cs : K) ≤ burst + (worth latest - worth first) := by
  have hconserve := he.conservation h
  have hleft : 0 ≤ b'.tokens :=
    Transition.invariant (fun _ _ _ hs hI => he.request_nonneg hburst hs hI) h hb
  -- what is earned after the bucket's own instant is earned after the first one
  have hworth : worth b'.last - worth b.last ≤ worth latest - worth first := by
    have hlast := he.monotone (last_le h hcs)
    rw [he.monotone.map_max] at hlast
    have hstart := he.monotone hfirst
    have hend := he.monotone hle
    rcases le_max_iff.mp hlast with hlast | hlast <;> linarith
  linarith

end TokenBucket
