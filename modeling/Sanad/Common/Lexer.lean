import Sanad.Common.Bytes

/-! # Lexers

A lexer reads a token one byte at a time and stops at the first byte that cannot continue it. A
token carries the proof that the lexer accepts it, so a malformed one cannot be built.
-/

/-- A deterministic automaton over bytes. A missing transition ends the token. -/
structure Lexer (σ : Type) where
  step : σ → UInt8 → Option σ
  /-- The states in which a token may end. -/
  final : σ → Bool

namespace Lexer

variable {σ : Type} (L : Lexer σ)

/-- The state after reading all of the bytes. -/
def run : σ → Bytes → Option σ
  | s, [] => some s
  | s, c :: rest => (L.step s c).bind fun s' => run s' rest

/-- The bytes, read from state `s`, form a whole token. -/
def accepts (s : σ) (b : Bytes) : Bool := (L.run s b).any L.final

/-- What the lexer reads from state `s`. -/
def Token (s : σ) : Type := {bytes : Bytes // L.accepts s bytes = true}

variable {L}

theorem run_append {s s' : σ} {a : Bytes} (h : L.run s a = some s') (b : Bytes) :
    L.run s (a ++ b) = L.run s' b := by
  induction a generalizing s with
  | nil =>
      obtain rfl := Option.some.inj h
      rfl
  | cons c a ih =>
      rw [run] at h
      obtain ⟨s₁, hstep, hrun⟩ := Option.bind_eq_some_iff.mp h
      rw [List.cons_append, run, hstep]
      exact ih hrun

theorem run_append_eq_some {s s' : σ} {a b : Bytes} (h : L.run s (a ++ b) = some s') :
    ∃ s₁, L.run s a = some s₁ ∧ L.run s₁ b = some s' := by
  induction a generalizing s with
  | nil => exact ⟨s, rfl, h⟩
  | cons c a ih =>
      rw [List.cons_append, run] at h
      obtain ⟨s₁, hstep, hrun⟩ := Option.bind_eq_some_iff.mp h
      obtain ⟨s₂, ha, hb⟩ := ih hrun
      exact ⟨s₂, by rw [run, hstep]; exact ha, hb⟩

/-- Every byte that the lexer reads has a transition. -/
theorem exists_step_of_run {s s' : σ} {b : Bytes} (h : L.run s b = some s') :
    ∀ c ∈ b, ∃ s₁ s₂, L.step s₁ c = some s₂ := by
  induction b generalizing s with
  | nil => simp
  | cons c b ih =>
      rw [run] at h
      obtain ⟨s₁, hstep, hrun⟩ := Option.bind_eq_some_iff.mp h
      exact List.forall_mem_cons.mpr ⟨⟨s, s₁, hstep⟩, ih hrun⟩

theorem accepts_append {s s' : σ} {a : Bytes} (h : L.run s a = some s') (b : Bytes) :
    L.accepts s (a ++ b) = L.accepts s' b := by
  rw [accepts, accepts, run_append h]

theorem accepts_cons {s s' : σ} {c : UInt8} (h : L.step s c = some s') (b : Bytes) :
    L.accepts s (c :: b) = L.accepts s' b := by
  rw [accepts, accepts, run, h]
  rfl

namespace Token

variable {s : σ}

/-- The bytes of a token. -/
def bytes (t : L.Token s) : Bytes := t.1

@[ext]
theorem ext {t u : L.Token s} (h : t.bytes = u.bytes) : t = u := Subtype.ext h

instance : DecidableEq (L.Token s) := fun _ _ => decidable_of_iff _ Token.ext_iff.symm

theorem exists_step (t : L.Token s) : ∀ c ∈ t.bytes, ∃ s₁ s₂, L.step s₁ c = some s₂ := by
  obtain ⟨s', hrun, -⟩ := (Option.any_eq_true _ _).mp t.2
  exact exists_step_of_run hrun

/-- The token that reads nothing. -/
def nil (h : L.final s = true) : L.Token s := ⟨[], h⟩

/-- Put one more byte in front of a token. -/
def cons {s' : σ} {c : UInt8} (h : L.step s c = some s') (t : L.Token s') : L.Token s :=
  ⟨c :: t.1, by rw [accepts_cons h]; exact t.2⟩

end Token

variable (L) in
/-- Read the longest token from state `s`, and what follows it. -/
def scan : (s : σ) → Bytes → Option (L.Token s × Bytes)
  | s, [] => if h : L.final s = true then some (Token.nil h, []) else none
  | s, c :: rest =>
    match hstep : L.step s c with
    | some s' => (scan s' rest).map fun p => (Token.cons hstep p.1, p.2)
    | none => if h : L.final s = true then some (Token.nil h, c :: rest) else none

theorem scan_cons_some {s s' : σ} {c : UInt8} (h : L.step s c = some s') (rest : Bytes) :
    L.scan s (c :: rest) = (L.scan s' rest).map fun p => (Token.cons h p.1, p.2) := by
  rw [scan]
  split
  · next s₁ hstep =>
      obtain rfl := Option.some.inj (hstep.symm.trans h)
      rfl
  · next hstep => rw [h] at hstep; cases hstep

theorem scan_stop {s : σ} {b : Bytes} (h : ∀ c ∈ b.head?, L.step s c = none)
    (hfinal : L.final s = true) : L.scan s b = some (Token.nil hfinal, b) := by
  cases b with
  | nil => rw [scan, dif_pos hfinal]
  | cons c b =>
      have hnone := h c rfl
      rw [scan]
      split
      · next s' hstep => rw [hnone] at hstep; cases hstep
      · rw [dif_pos hfinal]

/-- The lexer reads a token back when no byte of `rest` continues a token. -/
theorem scan_append {s : σ} (t : L.Token s) {rest : Bytes}
    (h : ∀ s', L.final s' = true → ∀ c ∈ rest.head?, L.step s' c = none) :
    L.scan s (t.bytes ++ rest) = some (t, rest) := by
  obtain ⟨bytes, hacc⟩ := t
  simp only [Token.bytes]
  induction bytes generalizing s with
  | nil => exact scan_stop (h s hacc) hacc
  | cons c bytes ih =>
      cases hstep : L.step s c with
      | none =>
          rw [accepts, run, hstep] at hacc
          cases hacc
      | some s' =>
          have hacc' := hacc
          rw [accepts_cons hstep] at hacc'
          rw [List.cons_append, scan_cons_some hstep, ih hacc']
          rfl

end Lexer
