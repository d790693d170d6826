import Sanad.Common.Json.Encode
import Sanad.Common.Transition
import Sanad.Pop

/-! # No proof is accepted twice

Any number of `Check` calls on one verifier: each reads the clock, makes its checks against the value
it read, and uses the cache later, in one step under its lock. The cache keeps a proof for as long as
it is fresh, provided that no call comes to it with a clock value from before its last turnover.
-/

namespace Sanad.Pop

open Transition

/-! ## The system -/

/-- Where a `Check` call stands. -/
inductive Call where
  /-- Not called yet. -/
  | idle
  /-- About to use the cache, with the id of its proof and the clock value it has read. -/
  | checked (p : Presented) (jti : Bytes) (now : ℤ)
  | returned (p : Presented) (result : Except PopError Unit)
  deriving DecidableEq

/-- A verifier with the calls made on it, each under its number. -/
structure State where
  clock : ℤ
  cache : ReplayCache
  calls : ℕ → Call

/-- A new verifier, before any call. -/
def State.new (v : Verifier) (clock : ℤ) : State := ⟨clock, v.cache, fun _ => .idle⟩

/-- A step of one of the calls. -/
inductive Event where
  /-- A call reads the clock and makes its checks. -/
  | check (k : ℕ) (p : Presented) (now : ℤ)
  /-- A call uses the cache and returns. -/
  | use (k : ℕ)

variable (S : SignatureScheme) (sha256 : Bytes → Bytes) (v : Verifier)

/-- The effect of a step. The clock does not run backwards. -/
def step (s : State) : Event → Option State
  | .check k p now =>
    match s.calls k with
    | .idle =>
      if s.clock ≤ now then
        some { s with
          clock := now
          calls := Function.update s.calls k
            (match v.check S sha256 p now with
            | .ok jti => .checked p jti now
            | .error e => .returned p (.error e)) }
      else none
    | _ => none
  | .use k =>
    match s.calls k with
    | .checked p jti now =>
      some { s with
        cache := (s.cache.use jti now).1
        calls := Function.update s.calls k (.returned p (s.cache.use jti now).2) }
    | _ => none

/-- Two calls never both accept one signed payload. -/
def AcceptedOnce (s : State) : Prop :=
  ∀ k k' p p' sig sig' payload, s.calls k = .returned p (.ok ()) →
    s.calls k' = .returned p' (.ok ()) → parseProof p.header = .ok (payload, sig) →
    parseProof p'.header = .ok (payload, sig') → k = k'

/-- The cache was not turned over at a later clock value than that of the call which uses it now. -/
def InOrder (s : State) : Event → Prop
  | .check _ _ _ => True
  | .use k =>
    match s.calls k with
    | .checked _ _ now => s.cache.rotated ≤ now
    | _ => True

instance (s : State) : ∀ e, Decidable (InOrder s e)
  | .check _ _ _ => .isTrue trivial
  | .use k =>
    show Decidable (match s.calls k with
        | .checked _ _ now => s.cache.rotated ≤ now
        | _ => True) from
      match s.calls k with
      | .idle => .isTrue trivial
      | .checked _ _ now => inferInstanceAs (Decidable (s.cache.rotated ≤ now))
      | .returned _ _ => .isTrue trivial

/-! ## The cache -/

/-- What the cache knows about an id that was used at `t`: it is in one of the two generations, or so
old that no proof used at `t` can be fresh at the last turnover. -/
def ReplayCache.Covers (c : ReplayCache) (jti : Bytes) (t : ℤ) : Prop :=
  (jti ∈ c.cur ∧ t < c.rotated + c.window) ∨ (jti ∈ c.prev ∧ t < c.rotated) ∨
    t + c.window < c.rotated

section Cache

variable {c : ReplayCache} {jti jti' : Bytes} {t now : ℤ}

/-- The window of a cache, small enough that twice of it is a duration. -/
structure ReplayCache.Sized (c : ReplayCache) : Prop where
  pos : 0 < c.window
  double : 2 * c.window ≤ Time.maxDuration

/-- What a use does to the generations: the very first one sets the time, one within the window does
nothing, and a later one turns over, with nothing kept after two windows. -/
theorem rotate_cases (hc : c.Sized) (now : ℤ) :
    (c.rotated = 0 ∧ c.rotate now = { c with rotated := now }) ∨
    ((c.rotated ≠ 0 ∧ now < c.rotated + c.window) ∧ c.rotate now = c) ∨
    ((c.rotated ≠ 0 ∧ c.rotated + c.window ≤ now ∧ now < c.rotated + 2 * c.window) ∧
      c.rotate now = { c with prev := c.cur, cur := [], rotated := now }) ∨
    ((c.rotated ≠ 0 ∧ c.rotated + 2 * c.window ≤ now) ∧
      c.rotate now = { c with prev := [], cur := [], rotated := now }) := by
  have hpos := hc.pos
  have hdouble := hc.double
  have hwrap : Time.wrap (2 * c.window) = 2 * c.window := Time.wrap_of_isInt64 ⟨by omega, hdouble⟩
  -- a difference that is out of range is beyond both bounds
  have hsub : ∀ d, 0 < d → d ≤ Time.maxDuration →
      (d ≤ Time.sub now c.rotated ↔ c.rotated + d ≤ now) := by
    intro d hd hmax
    rw [Time.sub]
    rw [Time.maxDuration] at hmax ⊢
    omega
  have hone := hsub c.window hpos (by omega)
  have htwo := hsub (2 * c.window) (by omega) hdouble
  unfold ReplayCache.rotate
  by_cases hzero : c.rotated = 0
  · exact .inl ⟨hzero, if_pos hzero⟩
  simp only [if_neg hzero, hwrap]
  by_cases hwithin : Time.sub now c.rotated < c.window
  · exact .inr (.inl ⟨⟨hzero, by omega⟩, if_pos hwithin⟩)
  simp only [if_neg hwithin]
  by_cases hlong : 2 * c.window ≤ Time.sub now c.rotated
  · exact .inr (.inr (.inr ⟨⟨hzero, htwo.mp hlong⟩, by rw [if_pos hlong]⟩))
  · exact .inr (.inr (.inl ⟨⟨hzero, by omega, by omega⟩, by rw [if_neg hlong]⟩))

theorem window_rotate (hc : c.Sized) (now : ℤ) : (c.rotate now).window = c.window := by
  rcases rotate_cases hc now with ⟨-, h⟩ | ⟨-, h⟩ | ⟨-, h⟩ | ⟨-, h⟩ <;> rw [h]

theorem rotated_rotate_le (hc : c.Sized) (hnow : c.rotated ≤ now) : (c.rotate now).rotated ≤ now := by
  rcases rotate_cases hc now with ⟨-, h⟩ | ⟨-, h⟩ | ⟨-, h⟩ | ⟨-, h⟩ <;> rw [h]
  exact hnow

/-- After a turnover the present lies within the window of the current generation. -/
theorem lt_rotated_rotate (hc : c.Sized) (now : ℤ) :
    now < (c.rotate now).rotated + (c.rotate now).window := by
  have hpos := hc.pos
  rcases rotate_cases hc now with ⟨-, h⟩ | ⟨⟨-, hwithin⟩, h⟩ | ⟨-, h⟩ | ⟨-, h⟩ <;> rw [h]
  · show now < now + c.window
    omega
  · exact hwithin
  · show now < now + c.window
    omega
  · show now < now + c.window
    omega

/-- No use forgets an id, other than one that is too old. -/
theorem ReplayCache.Covers.rotate (h : c.Covers jti t) (hc : c.Sized) (hnow : c.rotated ≤ now) :
    (c.rotate now).Covers jti t := by
  have hpos := hc.pos
  rcases rotate_cases hc now with ⟨-, heq⟩ | ⟨-, heq⟩ | ⟨⟨-, hone, -⟩, heq⟩ | ⟨⟨-, htwo⟩, heq⟩ <;>
    rw [heq]
  · rcases h with ⟨hmem, h⟩ | ⟨hmem, h⟩ | h
    · exact .inl ⟨hmem, show t < now + c.window by omega⟩
    · exact .inr (.inl ⟨hmem, show t < now by omega⟩)
    · exact .inr (.inr (show t + c.window < now by omega))
  · exact h
  · rcases h with ⟨hmem, h⟩ | ⟨-, h⟩ | h
    · exact .inr (.inl ⟨hmem, show t < now by omega⟩)
    · exact .inr (.inr (show t + c.window < now by omega))
    · exact .inr (.inr (show t + c.window < now by omega))
  · refine .inr (.inr (show t + c.window < now from ?_))
    rcases h with ⟨-, h⟩ | ⟨-, h⟩ | h <;> omega

/-- A use accepts an id that neither generation has, if there is room for it, or fails. -/
theorem use_cases (jti : Bytes) (now : ℤ) :
    ((jti ∉ (c.rotate now).cur ∧ jti ∉ (c.rotate now).prev ∧
        (c.rotate now).cur.length + (c.rotate now).prev.length < (c.rotate now).max) ∧
      c.use jti now = ({ c.rotate now with cur := jti :: (c.rotate now).cur }, .ok ())) ∨
    ∃ e, c.use jti now = (c.rotate now, .error e) := by
  unfold ReplayCache.use
  dsimp only
  split
  · exact .inr ⟨_, rfl⟩
  · next hcur =>
      split
      · exact .inr ⟨_, rfl⟩
      · next hprev =>
          split
          · exact .inr ⟨_, rfl⟩
          · next hroom => exact .inl ⟨⟨hcur, hprev, not_le.mp hroom⟩, rfl⟩

theorem ReplayCache.Covers.use (h : c.Covers jti t) (hc : c.Sized) (hnow : c.rotated ≤ now)
    (jti' : Bytes) : (c.use jti' now).1.Covers jti t := by
  have hrotate := h.rotate hc hnow
  rcases use_cases (c := c) jti' now with ⟨-, heq⟩ | ⟨e, heq⟩ <;> rw [heq]
  · rcases hrotate with ⟨hmem, h⟩ | h
    · exact .inl ⟨List.mem_cons_of_mem jti' hmem, h⟩
    · exact .inr h
  · exact hrotate

theorem window_use (hc : c.Sized) (jti : Bytes) (now : ℤ) : (c.use jti now).1.window = c.window := by
  rcases use_cases (c := c) jti now with ⟨-, heq⟩ | ⟨e, heq⟩ <;> rw [heq] <;>
    exact window_rotate hc now

/-- An id that is accepted is covered from then on, and was not covered by a generation before. -/
theorem accepted_use (hc : c.Sized) (hnow : c.rotated ≤ now) (h : (c.use jti now).2 = .ok ()) :
    (c.use jti now).1.Covers jti now ∧ ∀ t, c.Covers jti t → t + c.window < now := by
  rcases use_cases (c := c) jti now with ⟨⟨hcur, hprev, -⟩, heq⟩ | ⟨e, heq⟩
  · constructor
    · rw [heq]
      exact .inl ⟨List.mem_cons_self, lt_rotated_rotate hc now⟩
    · intro t ht
      rcases ht.rotate hc hnow with ⟨hmem, -⟩ | ⟨hmem, -⟩ | hold
      · exact absurd hmem hcur
      · exact absurd hmem hprev
      · rw [window_rotate hc] at hold
        exact lt_of_lt_of_le hold (rotated_rotate_le hc hnow)
  · rw [heq] at h
    cases h

end Cache

/-! ## Runs -/

/-- The binding that a proof header carries. -/
def Bound (p : Presented) (b : Binding) : Prop :=
  ∃ payload sig, parseProof p.header = .ok (payload, sig) ∧ Binding.decode payload = some b

/-- The binding is fresh at an instant. -/
structure Verifier.FreshAt (v : Verifier) (b : Binding) (t : ℤ) : Prop where
  started : Time.ofUnix b.iat ≤ t + v.skew
  current : t ≤ Time.ofUnix b.iat + v.maxAge

/-- Every call that is about to use the cache or has used it had a fresh binding, and the cache covers
those that were accepted. -/
structure Guarded (s : State) : Prop where
  sized : s.cache.Sized
  window : s.cache.window = v.maxAge + v.skew
  checked : ∀ {k p jti now}, s.calls k = .checked p jti now →
    ∃ b, Bound p b ∧ b.jti = jti ∧ v.FreshAt b now
  accepted : ∀ {k p}, s.calls k = .returned p (.ok ()) →
    ∃ b t, Bound p b ∧ v.FreshAt b t ∧ s.cache.Covers b.jti t
  once : AcceptedOnce s

section Run

variable {S sha256 v} {s s' : State} {k : ℕ} {p : Presented} {now : ℤ}

/-- What `Check` has established when it comes to the cache. -/
theorem of_check {jti : Bytes} (hwindow : 2 * (v.maxAge + v.skew) ≤ Time.maxDuration)
    (h : v.check S sha256 p now = .ok jti) : ∃ b, Bound p b ∧ b.jti = jti ∧ v.FreshAt b now := by
  rw [Verifier.check, Except.bind_eq_ok_iff] at h
  obtain ⟨b, hbind, h⟩ := h
  rw [Except.check_bind_eq_ok_iff] at h
  obtain ⟨hfresh, h⟩ := h
  cases h
  refine ⟨b, ?_, rfl, ?_⟩
  · simp only [Verifier.bind, Except.bind_eq_ok_iff, Except.ofOption_eq_ok_iff] at hbind
    obtain ⟨⟨⟩, -, ⟨method, url⟩, -, ⟨⟩, -, ⟨payload, sig⟩, hparse, ⟨⟩, -, b', hdecode, ⟨⟩, -, ⟨⟩, -,
      ⟨⟩, -, ⟨⟩, -, ⟨⟩, -, hb⟩ := hbind
    cases hb
    exact ⟨payload, sig, hparse, hdecode⟩
  · simp only [Verifier.fresh, Except.check_bind_eq_ok_iff, Except.require_eq_ok_iff] at hfresh
    obtain ⟨hstarted, hcurrent, -⟩ := hfresh
    have hpos := v.maxAge_pos
    have hskew := v.skew_nonneg
    refine ⟨hstarted, ?_⟩
    rw [Time.sub] at hcurrent
    rw [Time.maxDuration] at hcurrent hwindow
    omega

/-- Between two uses of one proof lies at most a window. -/
theorem Verifier.FreshAt.le {b : Binding} {t t' : ℤ} (h : v.FreshAt b t) (h' : v.FreshAt b t') :
    t' ≤ t + (v.maxAge + v.skew) := by
  have := h.started
  have := h'.current
  omega

theorem bound_unique {p' : Presented} {b b' : Binding} {payload sig sig' : Bytes} (h : Bound p b)
    (h' : Bound p' b') (hp : parseProof p.header = .ok (payload, sig))
    (hp' : parseProof p'.header = .ok (payload, sig')) : b = b' := by
  obtain ⟨q, r, hq, hb⟩ := h
  obtain ⟨q', r', hq', hb'⟩ := h'
  cases hq.symm.trans hp
  cases hq'.symm.trans hp'
  exact Option.some.inj (hb.symm.trans hb')

theorem guarded_new (clock : ℤ) (hwindow : 2 * (v.maxAge + v.skew) ≤ Time.maxDuration) :
    Guarded v (State.new v clock) := by
  have hpos := v.maxAge_pos
  have hskew := v.skew_nonneg
  have hw : (State.new v clock).cache.window = v.maxAge + v.skew := by
    have hwrap : v.window = v.maxAge + v.skew := Time.wrap_of_isInt64 ⟨by omega, by omega⟩
    show (if v.window ≤ 0 then _ else v.window) = _
    rw [if_neg (by omega), hwrap]
  refine ⟨⟨by omega, by omega⟩, hw, ?_, ?_, ?_⟩
  · rintro k p jti now ⟨⟩
  · rintro k p ⟨⟩
  · rintro k k' p p' sig sig' payload ⟨⟩

/-- A call that does not return with an acceptance. -/
theorem Guarded.update {call : Call} {clock : ℤ} (h : Guarded v s)
    (hchecked : ∀ p jti now, call = .checked p jti now →
      ∃ b, Bound p b ∧ b.jti = jti ∧ v.FreshAt b now)
    (hreturned : ∀ p, call ≠ .returned p (.ok ())) :
    Guarded v { s with clock := clock, calls := Function.update s.calls k call } := by
  have hcalls : ∀ {k' c}, Function.update s.calls k call k' = c →
      (k' = k ∧ call = c) ∨ s.calls k' = c := by
    intro k' c hc
    by_cases hk : k' = k
    · rw [hk, Function.update_self] at hc
      exact .inl ⟨hk, hc⟩
    · rw [Function.update_of_ne hk] at hc
      exact .inr hc
  have haccepted : ∀ {k' p}, Function.update s.calls k call k' = .returned p (.ok ()) →
      s.calls k' = .returned p (.ok ()) := by
    intro k' p hk'
    rcases hcalls hk' with ⟨-, hcall⟩ | hk'
    · exact absurd hcall (hreturned p)
    · exact hk'
  refine ⟨h.sized, h.window, ?_, ?_, ?_⟩
  · intro k' p jti now hk'
    rcases hcalls hk' with ⟨-, hcall⟩ | hk'
    · exact hchecked p jti now hcall
    · exact h.checked hk'
  · intro k' p hk'
    exact h.accepted (haccepted hk')
  · intro k₁ k₂ p₁ p₂ sig₁ sig₂ payload h₁ h₂
    exact h.once k₁ k₂ p₁ p₂ sig₁ sig₂ payload (haccepted h₁) (haccepted h₂)

/-- A payload that was accepted before is not accepted again. -/
theorem Guarded.not_again (h : Guarded v s) {k' : ℕ} {p' : Presented} {jti payload sig sig' : Bytes}
    (hk : s.calls k = .checked p jti now) (hnow : s.cache.rotated ≤ now)
    (hk' : s.calls k' = .returned p' (.ok ())) (hp : parseProof p.header = .ok (payload, sig))
    (hp' : parseProof p'.header = .ok (payload, sig')) : (s.cache.use jti now).2 ≠ .ok () := by
  intro haccept
  obtain ⟨b, hb, rfl, hfresh⟩ := h.checked hk
  obtain ⟨b', t, hb', hfresh', hcovers⟩ := h.accepted hk'
  cases bound_unique hb hb' hp hp'
  have hold := (accepted_use h.sized hnow haccept).2 t hcovers
  have hle := hfresh'.le hfresh
  rw [h.window] at hold
  omega

theorem Guarded.use {jti : Bytes} (h : Guarded v s) (hk : s.calls k = .checked p jti now)
    (hnow : s.cache.rotated ≤ now) :
    Guarded v { s with
      cache := (s.cache.use jti now).1
      calls := Function.update s.calls k (.returned p (s.cache.use jti now).2) } := by
  have hwindow := window_use h.sized jti now
  have hother : ∀ {k' c}, k' ≠ k →
      Function.update s.calls k (.returned p (s.cache.use jti now).2) k' = c → s.calls k' = c := by
    intro k' c hne hc
    rwa [Function.update_of_ne hne] at hc
  have hself : ∀ {p'},
      Function.update s.calls k (.returned p (s.cache.use jti now).2) k = .returned p' (.ok ()) →
        p' = p ∧ (s.cache.use jti now).2 = .ok () := by
    intro p' hk
    rw [Function.update_self, Call.returned.injEq] at hk
    exact ⟨hk.1.symm, hk.2⟩
  refine ⟨⟨hwindow ▸ h.sized.pos, hwindow ▸ h.sized.double⟩, hwindow.trans h.window, ?_, ?_, ?_⟩
  · intro k' p' jti' now' hk'
    by_cases hne : k' = k
    · subst hne
      simp only [Function.update_self, reduceCtorEq] at hk'
    · exact h.checked (hother hne hk')
  · intro k' p' hk'
    by_cases hne : k' = k
    · subst hne
      obtain ⟨rfl, haccept⟩ := hself hk'
      obtain ⟨b, hb, rfl, hfresh⟩ := h.checked hk
      exact ⟨b, now, hb, hfresh, (accepted_use h.sized hnow haccept).1⟩
    · obtain ⟨b, t, hb, hfresh, hcovers⟩ := h.accepted (hother hne hk')
      exact ⟨b, t, hb, hfresh, hcovers.use h.sized hnow jti⟩
  · intro k₁ k₂ p₁ p₂ sig₁ sig₂ payload h₁ h₂ hp₁ hp₂
    -- two accepted calls with one proof: if one of them is this call, the cache knew the other
    by_cases hne₁ : k₁ = k
    · by_cases hne₂ : k₂ = k
      · rw [hne₁, hne₂]
      · subst hne₁
        obtain ⟨rfl, haccept⟩ := hself h₁
        exact absurd haccept (h.not_again hk hnow (hother hne₂ h₂) hp₁ hp₂)
    · by_cases hne₂ : k₂ = k
      · subst hne₂
        obtain ⟨rfl, haccept⟩ := hself h₂
        exact absurd haccept (h.not_again hk hnow (hother hne₁ h₁) hp₂ hp₁)
      · exact h.once k₁ k₂ p₁ p₂ sig₁ sig₂ payload (hother hne₁ h₁) (hother hne₂ h₂) hp₁ hp₂

theorem Guarded.step {e : Event} (h : Guarded v s)
    (hwindow : 2 * (v.maxAge + v.skew) ≤ Time.maxDuration) (hs : step S sha256 v s e = some s')
    (horder : InOrder s e) : Guarded v s' := by
  cases e with
  | check k p now =>
      rw [Pop.step] at hs
      split at hs
      · split at hs
        · cases hs
          cases hcheck : v.check S sha256 p now with
          | ok jti =>
              refine h.update ?_ (by simp)
              rintro p' jti' now' ⟨⟩
              exact of_check hwindow hcheck
          | error e => exact h.update (by simp) (by simp)
        · cases hs
      · cases hs
  | use k =>
      rw [Pop.step] at hs
      split at hs
      · next p jti now hk =>
          cases hs
          simp only [InOrder, hk] at horder
          exact h.use hk horder
      · cases hs

end Run

/-- At most one of the `Check` calls of a run accepts a signed payload, for a verifier that is new at
the start of the run. -/
def AtMostOnce (clock : ℤ) (es : List Event) : Prop :=
  ∀ s, run (step S sha256 v) (State.new v clock) es = some s → AcceptedOnce s

/-- A captured proof is not accepted a second time in a run in which the calls come to the cache in
order, as far as its turnovers go. -/
theorem atMostOnce_of_inOrder {clock : ℤ} {es : List Event}
    (hwindow : 2 * (v.maxAge + v.skew) ≤ Time.maxDuration)
    (horder : Along (step S sha256 v) (fun s e _ => InOrder s e) (State.new v clock) es) :
    AtMostOnce S sha256 v clock es := by
  intro s hrun
  have hguarded : Guarded v s := Along.invariant (I := Guarded v)
    (fun _ _ _ hs hC h => h.step hwindow hs hC) hrun horder (guarded_new clock hwindow)
  exact hguarded.once

/-! ## A call that is overtaken -/

namespace Sample

/-- The payload of a proof for a request to the root path without a body, by a client whose token is
the letter t, if SHA-256 were the identity. -/
def payload (iat : ℤ) (jti : Bytes) : Bytes :=
  Json.render (.ofFields
    [("ath", .ofString (Base64Url.encode (Bytes.ascii "t"))), ("bh", .ofString []),
      ("htm", .ofString (Bytes.ascii "GET")), ("htu", .ofString (Bytes.ascii "/")),
      ("iat", .ofInt iat), ("jti", .ofString jti)])

/-- The proof, presented with its request. -/
def presented (iat : ℤ) (jti : Bytes) : Presented where
  pub := List.replicate 32 5
  header := Base64Url.encode (payload iat jti) ++ Bytes.ascii "." ++
    Base64Url.encode (Sigctx.sign .free .instanceProof (List.replicate 64 5) (payload iat jti))
  request := some (Bytes.ascii "GET", some ⟨[], []⟩)
  body := []
  token := Bytes.ascii "t"

/-- A verifier with the default window of 30 s and 5 s. -/
def verifier : Verifier := .new .instanceProof []

/-- An instant, by the nanoseconds after 1000 s of Unix time. -/
def instant (ns : ℤ) : ℤ := Time.ofUnix 1000 + ns

/-- The proof p is accepted at the earliest moment at which it is fresh. Call 3 presents it again at
the last such moment, and is overtaken by call 4, which read the clock a nanosecond later and turns
the cache over a second time. -/
def overtaken : List Event :=
  [.check 0 (presented 960 (Bytes.ascii "w")) (instant (-40 * Time.second + 1)), .use 0,
    .check 1 (presented 1000 (Bytes.ascii "p")) (instant (-5 * Time.second)), .use 1,
    .check 2 (presented 995 (Bytes.ascii "c")) (instant (-5 * Time.second + 1)), .use 2,
    .check 3 (presented 1000 (Bytes.ascii "p")) (instant (30 * Time.second)),
    .check 4 (presented 1030 (Bytes.ascii "d")) (instant (30 * Time.second + 1)), .use 4, .use 3]

/-- The same calls, with the last two in the order of their clock values. -/
def inOrder : List Event :=
  [.check 0 (presented 960 (Bytes.ascii "w")) (instant (-40 * Time.second + 1)), .use 0,
    .check 1 (presented 1000 (Bytes.ascii "p")) (instant (-5 * Time.second)), .use 1,
    .check 2 (presented 995 (Bytes.ascii "c")) (instant (-5 * Time.second + 1)), .use 2,
    .check 3 (presented 1000 (Bytes.ascii "p")) (instant (30 * Time.second)),
    .check 4 (presented 1030 (Bytes.ascii "d")) (instant (30 * Time.second + 1)), .use 3, .use 4]

end Sample

open Sample in
theorem atMostOnce_of_inOrder_sample :
    ((run (step .free id verifier) (State.new verifier 0) inOrder).map fun s => s.calls 3) =
        some (.returned (presented 1000 (Bytes.ascii "p")) (.error .replayed)) ∧
      AtMostOnce .free id verifier 0 inOrder :=
  ⟨by decide +kernel, atMostOnce_of_inOrder .free id verifier (by decide +kernel) (by decide +kernel)⟩

open Sample in
theorem overtaken_proof_accepted_twice : ¬AtMostOnce .free id verifier 0 overtaken := by
  have hcalls : ((run (step .free id verifier) (State.new verifier 0) overtaken).map fun s =>
      (s.calls 1, s.calls 3)) = some (.returned (presented 1000 (Bytes.ascii "p")) (.ok ()),
        .returned (presented 1000 (Bytes.ascii "p")) (.ok ())) := by
    decide +kernel
  have hparse : (parseProof (presented 1000 (Bytes.ascii "p")).header).toBool = true := by
    decide +kernel
  intro h
  obtain ⟨s, hs, hcalls⟩ := Option.map_eq_some_iff.mp hcalls
  obtain ⟨h₁, h₃⟩ := Prod.mk.inj hcalls
  cases hproof : parseProof (presented 1000 (Bytes.ascii "p")).header with
  | error e =>
      rw [hproof] at hparse
      cases hparse
  | ok proof => cases h s hs 1 3 _ _ _ _ _ h₁ h₃ hproof hproof

end Sanad.Pop
