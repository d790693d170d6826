import Mathlib.Data.List.Basic

/-! # Programs that change a state and may fail

A handler that updates shared data and returns early with an error is a `do` block over `EStateM`:
the state it leaves behind is kept when it fails. Inverting a successful run takes one lemma for
each way to make a step.
-/

namespace EStateM

variable {ε ε' σ τ α β : Type}

instance instDecidableEqResult [DecidableEq ε] [DecidableEq σ] [DecidableEq α] :
    DecidableEq (Result ε σ α)
  | .ok a s, .ok a' s' => decidable_of_iff (a = a' ∧ s = s') (by simp)
  | .error e s, .error e' s' => decidable_of_iff (e = e' ∧ s = s') (by simp)
  | .ok _ _, .error _ _ => isFalse nofun
  | .error _ _, .ok _ _ => isFalse nofun

/-- The program did not fail. -/
def succeeds : Result ε σ α → Bool
  | .ok _ _ => true
  | .error _ _ => false

/-- Fail with `e` unless `p` holds. -/
def require (p : Prop) [Decidable p] (e : ε) : EStateM ε σ Unit :=
  fun s => if p then .ok () s else .error e s

/-- A computation that neither reads nor writes the state. -/
def liftExcept (x : Except ε α) : EStateM ε σ α :=
  fun s =>
    match x with
    | .ok a => .ok a s
    | .error e => .error e s

/-- The value of an option, or the error `e`. -/
def liftOption (o : Option α) (e : ε) : EStateM ε σ α :=
  fun s =>
    match o with
    | some a => .ok a s
    | none => .error e s

/-- Read the state. -/
def read (f : σ → α) : EStateM ε σ α := fun s => .ok (f s) s

/-- Write the state. -/
def update (f : σ → σ) : EStateM ε σ Unit := fun s => .ok () (f s)

/-- Run a program on the first component of the state, with its error converted. -/
def onFst (f : ε → ε') (x : EStateM ε σ α) : EStateM ε' (σ × τ) α :=
  fun (s, t) =>
    match x s with
    | .ok a s' => .ok a (s', t)
    | .error e s' => .error (f e) (s', t)

/-- Convert the error. -/
def convertError (f : ε → ε') (x : EStateM ε σ α) : EStateM ε' σ α :=
  fun s =>
    match x s with
    | .ok a s' => .ok a s'
    | .error e s' => .error (f e) s'

section

variable {s s' : σ} {t : τ} {b : β} {e : ε}

theorem bind_eq_ok_iff {x : EStateM ε σ α} {f : α → EStateM ε σ β} :
    (x >>= f) s = .ok b s' ↔ ∃ a s₁, x s = .ok a s₁ ∧ f a s₁ = .ok b s' := by
  show EStateM.bind x f s = .ok b s' ↔ _
  rw [EStateM.bind]
  cases x s <;> simp

/-- A program that gives no value, followed by the rest. -/
theorem check_bind_eq_ok_iff {x : EStateM ε σ Unit} {f : Unit → EStateM ε σ β} :
    (x >>= f) s = .ok b s' ↔ ∃ s₁, x s = .ok () s₁ ∧ f () s₁ = .ok b s' := by
  rw [bind_eq_ok_iff]
  constructor
  · rintro ⟨⟨⟩, s₁, h⟩
    exact ⟨s₁, h⟩
  · rintro ⟨s₁, h⟩
    exact ⟨(), s₁, h⟩

theorem succeeds_iff {r : Result ε σ α} : succeeds r = true ↔ ∃ a s, r = .ok a s := by
  cases r <;> simp [succeeds]

theorem pure_eq_ok_iff {a : α} {u : α} :
    (pure a : EStateM ε σ α) s = .ok u s' ↔ a = u ∧ s = s' := by
  show Result.ok a s = .ok u s' ↔ _
  simp

theorem require_eq_ok_iff {p : Prop} [Decidable p] {u : Unit} :
    require p e s = .ok u s' ↔ p ∧ s = s' := by
  by_cases hp : p <;> simp [require, hp]

theorem require_bind_eq_ok_iff {p : Prop} [Decidable p] {f : Unit → EStateM ε σ β} :
    (require p e >>= f) s = .ok b s' ↔ p ∧ f () s = .ok b s' := by
  rw [check_bind_eq_ok_iff]
  by_cases hp : p <;> simp [require, hp]

theorem liftExcept_eq_ok_iff {x : Except ε α} {a : α} :
    liftExcept x s = .ok a s' ↔ x = .ok a ∧ s = s' := by
  cases x <;> simp [liftExcept]

theorem liftExcept_bind_eq_ok_iff {x : Except ε α} {f : α → EStateM ε σ β} :
    (liftExcept x >>= f) s = .ok b s' ↔ ∃ a, x = .ok a ∧ f a s = .ok b s' := by
  rw [bind_eq_ok_iff]
  cases x <;> simp [liftExcept]

theorem liftOption_bind_eq_ok_iff {o : Option α} {f : α → EStateM ε σ β} :
    (liftOption o e >>= f) s = .ok b s' ↔ ∃ a, o = some a ∧ f a s = .ok b s' := by
  rw [bind_eq_ok_iff]
  cases o <;> simp [liftOption]

theorem read_bind_eq_ok_iff {g : σ → α} {f : α → EStateM ε σ β} :
    (read g >>= f) s = .ok b s' ↔ f (g s) s = .ok b s' := by
  rw [bind_eq_ok_iff]
  simp [read]

theorem update_eq_ok_iff {f : σ → σ} {u : Unit} :
    (update f : EStateM ε σ Unit) s = .ok u s' ↔ f s = s' := by
  simp [update]

theorem update_bind_eq_ok_iff {g : σ → σ} {f : Unit → EStateM ε σ β} :
    (update g >>= f) s = .ok b s' ↔ f () (g s) = .ok b s' := by
  rw [check_bind_eq_ok_iff]
  simp [update]

theorem onFst_eq_ok_iff {f : ε → ε'} {x : EStateM ε σ α} {a : α} {p : σ × τ} :
    onFst f x (s, t) = .ok a p ↔ ∃ s₁, x s = .ok a s₁ ∧ (s₁, t) = p := by
  cases h : x s <;> simp [onFst, h]

theorem onFst_bind_eq_ok_iff {f : ε → ε'} {x : EStateM ε σ α} {g : α → EStateM ε' (σ × τ) β}
    {p : σ × τ} :
    (onFst f x >>= g) (s, t) = .ok b p ↔ ∃ a s₁, x s = .ok a s₁ ∧ g a (s₁, t) = .ok b p := by
  rw [bind_eq_ok_iff]
  cases h : x s <;> simp [onFst, h]

theorem convertError_eq_ok_iff {f : ε → ε'} {x : EStateM ε σ α} {a : α} :
    convertError f x s = .ok a s' ↔ x s = .ok a s' := by
  rw [convertError]
  cases x s <;> simp

theorem convertError_bind_eq_ok_iff {f : ε → ε'} {x : EStateM ε σ α} {g : α → EStateM ε' σ β} :
    (convertError f x >>= g) s = .ok b s' ↔ ∃ a s₁, x s = .ok a s₁ ∧ g a s₁ = .ok b s' := by
  simp only [bind_eq_ok_iff, convertError_eq_ok_iff]

end

end EStateM
