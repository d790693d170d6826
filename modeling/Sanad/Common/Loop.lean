import Mathlib.Data.Nat.Init

/-! # Loops that may not end

A loop over machine integers need not end, so it is run with fuel: the number of times its condition
may be tested. What a loop returns is read off a function with the loop's own equation (`Solves`);
that it never returns is read off an invariant that keeps its condition true.
-/

namespace Loop

variable {σ ρ α A : Type}

/-- With enough fuel, the computation yields a value with the given property. -/
def Returns (f : ℕ → Option α) (P : α → Prop) : Prop :=
  ∃ a, P a ∧ ∃ n, ∀ fuel, n ≤ fuel → f fuel = some a

theorem not_returns {f : ℕ → Option α} (h : ∀ fuel, f fuel = none) (P : α → Prop) :
    ¬ Returns f P := by
  rintro ⟨a, -, n, hn⟩
  have ha := hn n (Nat.le_refl n)
  rw [h] at ha
  cases ha

/-- `for cond { body }`, where an error of the body is a `return` from inside the loop. -/
def run (cond : σ → Bool) (body : σ → Except ρ σ) : ℕ → σ → Option (Except ρ σ)
  | 0, _ => none
  | fuel + 1, s =>
    if cond s then
      match body s with
      | .error r => some (.error r)
      | .ok s => run cond body fuel s
    else some (.ok s)

/-- `for cond { body }`, where the body never leaves the loop. -/
def runPure (cond : σ → Bool) (body : σ → σ) (fuel : ℕ) (s : σ) : Option σ :=
  (run cond (fun s => (.ok (body s) : Except Unit σ)) fuel s).bind Except.toOption

/-- A function with the equation of a loop, on the states that `rep` represents and `inv` allows,
where a measure goes down in every round. -/
structure Solves (cond : σ → Bool) (body : σ → Except ρ σ) (rep : A → σ) (inv : A → Prop)
    (measure : A → ℕ) (f : A → Except ρ σ) : Prop where
  stop : ∀ a, inv a → cond (rep a) = false → f a = .ok (rep a)
  next : ∀ a, inv a → cond (rep a) = true →
    (∃ r, body (rep a) = .error r ∧ f a = .error r) ∨
      ∃ a', body (rep a) = .ok (rep a') ∧ inv a' ∧ measure a' < measure a ∧ f a = f a'

section Rules

variable {cond : σ → Bool} {body : σ → Except ρ σ}

/-- What solves a loop's equation is what the loop returns. -/
theorem Solves.run_eq {rep : A → σ} {inv : A → Prop} {measure : A → ℕ} {f : A → Except ρ σ}
    (h : Solves cond body rep inv measure f) {a : A} (ha : inv a) {fuel : ℕ}
    (hfuel : measure a < fuel) : run cond body fuel (rep a) = some (f a) := by
  induction fuel generalizing a with
  | zero => omega
  | succ fuel ih =>
      rw [run]
      cases hcond : cond (rep a) with
      | false => rw [if_neg (by simp), h.stop a ha hcond]
      | true =>
          rw [if_pos rfl]
          rcases h.next a ha hcond with ⟨r, hbody, hf⟩ | ⟨a', hbody, ha', hlt, hf⟩
          · rw [hbody, hf]
          · rw [hbody, hf]
            exact ih ha' (by omega)

/-- A loop does not end if an invariant of its rounds keeps the condition true. -/
theorem run_eq_none (inv : σ → Prop)
    (h : ∀ s, inv s → cond s = true ∧ ∃ s', body s = .ok s' ∧ inv s') {s : σ} (hs : inv s)
    (fuel : ℕ) : run cond body fuel s = none := by
  induction fuel generalizing s with
  | zero => rfl
  | succ fuel ih =>
      obtain ⟨hcond, s', hbody, hs'⟩ := h s hs
      rw [run, if_pos hcond, hbody]
      exact ih hs'

end Rules

theorem runPure_eq {cond : σ → Bool} {body : σ → σ} (rep : A → σ) (inv : A → Prop)
    (measure : A → ℕ) (f : A → σ) (hstop : ∀ a, inv a → cond (rep a) = false → f a = rep a)
    (hnext : ∀ a, inv a → cond (rep a) = true →
      ∃ a', body (rep a) = rep a' ∧ inv a' ∧ measure a' < measure a ∧ f a = f a')
    {a : A} (ha : inv a) {fuel : ℕ} (hfuel : measure a < fuel) :
    runPure cond body fuel (rep a) = some (f a) := by
  have hsolves : Solves cond (fun s => (.ok (body s) : Except Unit σ)) rep inv measure
      fun a => .ok (f a) := by
    refine ⟨fun a ha hcond => by rw [hstop a ha hcond], fun a ha hcond => .inr ?_⟩
    obtain ⟨a', hbody, ha', hlt, hf⟩ := hnext a ha hcond
    exact ⟨a', by rw [hbody], ha', hlt, by rw [hf]⟩
  rw [runPure, hsolves.run_eq ha hfuel]
  rfl

theorem runPure_eq_none {cond : σ → Bool} {body : σ → σ} (inv : σ → Prop)
    (h : ∀ s, inv s → cond s = true ∧ inv (body s)) {s : σ} (hs : inv s) (fuel : ℕ) :
    runPure cond body fuel s = none := by
  rw [runPure, run_eq_none inv (fun s hs => ⟨(h s hs).1, body s, rfl, (h s hs).2⟩) hs]
  rfl

end Loop
