import Mathlib.Data.List.Basic

/-! # Runs of a transition system

A system is a partial function that takes a state and an event to the next state. What holds along a
run is stated over its transitions, and an invariant only has to be kept by one of them.
-/

namespace Transition

variable {σ ε : Type} (step : σ → ε → Option σ)

/-- The state after a list of events, none if one of them is not enabled when it comes. -/
def run : σ → List ε → Option σ
  | s, [] => some s
  | s, e :: es => (step s e).bind fun s' => run s' es

/-- Every transition of the run satisfies `C`. -/
def Along (C : σ → ε → σ → Prop) : σ → List ε → Prop
  | _, [] => True
  | s, e :: es =>
    match step s e with
    | none => True
    | some s' => C s e s' ∧ Along C s' es

/-- `P` holds in every state of the run, the first and the last included. -/
def Always (P : σ → Prop) (s : σ) (es : List ε) : Prop := P s ∧ Along step (fun _ _ s' => P s') s es

instance decidableAlong (C : σ → ε → σ → Prop) [∀ s e s', Decidable (C s e s')] :
    ∀ (s : σ) (es : List ε), Decidable (Along step C s es)
  | _, [] => .isTrue trivial
  | s, e :: es =>
    show Decidable (match step s e with
        | none => True
        | some s' => C s e s' ∧ Along step C s' es) from
      match step s e with
      | none => .isTrue trivial
      | some s' => @instDecidableAnd _ _ _ (decidableAlong C s' es)

instance (P : σ → Prop) [DecidablePred P] (s : σ) (es : List ε) : Decidable (Always step P s es) :=
  inferInstanceAs (Decidable (_ ∧ _))

variable {step}

theorem run_cons_eq_some_iff {s s' : σ} {e : ε} {es : List ε} :
    run step s (e :: es) = some s' ↔ ∃ s₁, step s e = some s₁ ∧ run step s₁ es = some s' := by
  rw [run, Option.bind_eq_some_iff]

theorem run_append_eq_some_iff {s s' : σ} {es es' : List ε} :
    run step s (es ++ es') = some s' ↔ ∃ s₁, run step s es = some s₁ ∧ run step s₁ es' = some s' := by
  induction es generalizing s with
  | nil => simp [run]
  | cons e es ih =>
      rw [List.cons_append, run_cons_eq_some_iff]
      simp only [run_cons_eq_some_iff, ih]
      exact ⟨fun ⟨s₁, hs₁, s₂, hrun, hrest⟩ => ⟨s₂, ⟨s₁, hs₁, hrun⟩, hrest⟩,
        fun ⟨s₂, ⟨s₁, hs₁, hrun⟩, hrest⟩ => ⟨s₁, hs₁, s₂, hrun, hrest⟩⟩

theorem along_cons_iff {C : σ → ε → σ → Prop} {s s' : σ} {e : ε} {es : List ε}
    (h : step s e = some s') : Along step C s (e :: es) ↔ C s e s' ∧ Along step C s' es := by
  rw [Along, h]

/-- The first part of a run and the rest of it. -/
theorem Along.append {C : σ → ε → σ → Prop} {s s' : σ} {es es' : List ε}
    (h : Along step C s (es ++ es')) (hrun : run step s es = some s') :
    Along step C s es ∧ Along step C s' es' := by
  induction es generalizing s with
  | nil =>
      cases hrun
      exact ⟨trivial, h⟩
  | cons e es ih =>
      obtain ⟨s₁, hstep, hrun⟩ := run_cons_eq_some_iff.mp hrun
      rw [List.cons_append, Along, hstep] at h
      obtain ⟨hes, hes'⟩ := ih h.2 hrun
      rw [Along, hstep]
      exact ⟨⟨h.1, hes⟩, hes'⟩

/-- An invariant that every transition with `C` keeps holds after every run along `C`. -/
theorem Along.invariant {C : σ → ε → σ → Prop} {I : σ → Prop}
    (hstep : ∀ s e s', step s e = some s' → C s e s' → I s → I s') {s s' : σ} {es : List ε}
    (hrun : run step s es = some s') (halong : Along step C s es) (hI : I s) : I s' := by
  induction es generalizing s with
  | nil =>
      cases hrun
      exact hI
  | cons e es ih =>
      obtain ⟨s₁, hs₁, hrun⟩ := run_cons_eq_some_iff.mp hrun
      rw [Along, hs₁] at halong
      exact ih hrun halong.2 (hstep s e s₁ hs₁ halong.1 hI)

theorem Along.and {C D : σ → ε → σ → Prop} {s : σ} {es : List ε} (hC : Along step C s es)
    (hD : Along step D s es) : Along step (fun s e s' => C s e s' ∧ D s e s') s es := by
  induction es generalizing s with
  | nil => trivial
  | cons e es ih =>
      rw [Along] at hC hD ⊢
      cases hs : step s e with
      | none => trivial
      | some s' =>
          rw [hs] at hC hD
          exact ⟨⟨hC.1, hD.1⟩, ih hC.2 hD.2⟩

theorem along_of_forall_mem {Q : ε → Prop} {s : σ} {es : List ε} (h : ∀ e ∈ es, Q e) :
    Along step (fun _ e _ => Q e) s es := by
  induction es generalizing s with
  | nil => trivial
  | cons e es ih =>
      rw [Along]
      cases step s e with
      | none => trivial
      | some s' => exact ⟨h e List.mem_cons_self, ih fun e' he' => h e' (List.mem_cons_of_mem e he')⟩

/-- An invariant that every transition keeps holds after every run. -/
theorem invariant {I : σ → Prop} (hstep : ∀ s e s', step s e = some s' → I s → I s') {s s' : σ}
    {es : List ε} (hrun : run step s es = some s') (hI : I s) : I s' :=
  Along.invariant (fun s e s' hs _ => hstep s e s' hs) hrun
    (along_of_forall_mem (Q := fun _ => True) fun _ _ => trivial) hI

/-- Where a property of the last state comes from: from the first one, or from an event of the run. -/
theorem origin {P : σ → Prop} {Q : ε → Prop}
    (hstep : ∀ s e s', step s e = some s' → P s' → P s ∨ Q e) {s s' : σ} {es : List ε}
    (hrun : run step s es = some s') (hP : P s') : P s ∨ ∃ e ∈ es, Q e := by
  induction es generalizing s with
  | nil =>
      cases hrun
      exact .inl hP
  | cons e es ih =>
      obtain ⟨s₁, hs₁, hrun⟩ := run_cons_eq_some_iff.mp hrun
      rcases ih hrun with hP₁ | ⟨e', he', hQ⟩
      · exact (hstep s e s₁ hs₁ hP₁).imp_right fun hQ => ⟨e, List.mem_cons_self, hQ⟩
      · exact .inr ⟨e', List.mem_cons_of_mem e he', hQ⟩

/-- If `C` says of every transition from a state with `P` whether it keeps `P`, then it says of every run
whether `P` always holds. -/
theorem always_iff_along {P : σ → Prop} {C : σ → ε → σ → Prop} {s : σ} {es : List ε}
    (hstep : ∀ s e s', e ∈ es → step s e = some s' → P s → (P s' ↔ C s e s')) (hP : P s) :
    Always step P s es ↔ Along step C s es := by
  rw [Always, and_iff_right hP]
  induction es generalizing s with
  | nil => exact Iff.rfl
  | cons e es ih =>
      rw [Along, Along]
      cases hs : step s e with
      | none => exact Iff.rfl
      | some s' =>
          have hiff := hstep s e s' List.mem_cons_self hs hP
          have hrest : P s' → (Along step (fun _ _ s' => P s') s' es ↔ Along step C s' es) :=
            ih fun s e s' he => hstep s e s' (List.mem_cons_of_mem _ he)
          exact ⟨fun h => ⟨hiff.mp h.1, (hrest h.1).mp h.2⟩,
            fun h => ⟨hiff.mpr h.1, (hrest (hiff.mpr h.1)).mpr h.2⟩⟩

/-- An entry of a record to which one was added. -/
theorem getElem?_concat_eq_some_iff {α : Type} {record : List α} {x y : α} {n : ℕ} :
    (record ++ [x])[n]? = some y ↔ record[n]? = some y ∨ n = record.length ∧ x = y := by
  rcases Nat.lt_trichotomy n record.length with hlt | rfl | hgt
  · simp [List.getElem?_append_left hlt, Nat.ne_of_lt hlt]
  · simp
  · have hout : (record ++ [x]).length ≤ n := by
      rw [List.length_append]
      exact hgt
    simp [List.getElem?_eq_none hout, List.getElem?_eq_none (Nat.le_of_lt hgt), Nat.ne_of_gt hgt]

end Transition
