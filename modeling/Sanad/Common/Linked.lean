import Mathlib.Data.List.Basic
import Mathlib.Data.List.Induction

/-! # Linked lists of records

Records that carry a tag, each of them valid only after the tag of the one before. If a tag
determines what it was made for, the last tag determines the whole history.
-/

namespace Linked

variable {α β τ : Type} (R : τ → α → Prop) (tag : α → τ)

/-- Every record is valid after the tag of the one before, and the first after `start`. -/
def Valid : τ → List α → Prop
  | _, [] => True
  | start, a :: as => R start a ∧ Valid (tag a) as

/-- The tag of the last record, or `start` if there is none. -/
def lastTag (start : τ) (as : List α) : τ := (as.getLast?.map tag).getD start

variable {R tag}

theorem lastTag_concat (start : τ) (as : List α) (a : α) :
    lastTag tag start (as ++ [a]) = tag a := by
  simp [lastTag]

theorem lastTag_cons (start : τ) (a : α) (as : List α) :
    lastTag tag start (a :: as) = lastTag tag (tag a) as := by
  rw [lastTag, lastTag, List.getLast?_cons]
  cases as.getLast? <;> rfl

theorem valid_concat {start : τ} {as : List α} {a : α} :
    Valid R tag start (as ++ [a]) ↔ Valid R tag start as ∧ R (lastTag tag start as) a := by
  induction as generalizing start with
  | nil => simp [Valid, lastTag]
  | cons b as ih => rw [List.cons_append, Valid, Valid, ih, lastTag_cons, and_assoc]

theorem Valid.and {P : α → Prop} {start : τ} {as : List α} (h : Valid R tag start as)
    (hP : ∀ a ∈ as, P a) : Valid (fun p a => R p a ∧ P a) tag start as := by
  induction as generalizing start with
  | nil => trivial
  | cons a as ih =>
      obtain ⟨ha, has⟩ := List.forall_mem_cons.mp hP
      exact ⟨⟨h.1, ha⟩, ih h.2 has⟩

/-- The record with index `i` is valid after the tag of the one before it. -/
theorem Valid.getElem {start : τ} {as : List α} (h : Valid R tag start as) (i : ℕ)
    (hi : i < as.length) : R (lastTag tag start (as.take i)) as[i] := by
  induction as generalizing start i with
  | nil => simp at hi
  | cons a as ih =>
      cases i with
      | zero => exact h.1
      | succ i =>
          rw [List.take_succ_cons, lastTag_cons]
          exact ih h.2 i (by simpa using hi)

/-- The last tag determines the history, as far as each tag determines its record. -/
theorem Valid.map_eq {start : τ} {f : α → β} (hne : ∀ p a, R p a → tag a ≠ start)
    (hinj : ∀ p p' a a', R p a → R p' a' → tag a = tag a' → p = p' ∧ f a = f a')
    {as as' : List α} (h : Valid R tag start as) (h' : Valid R tag start as')
    (hlast : lastTag tag start as = lastTag tag start as') : as.map f = as'.map f := by
  induction as using List.reverseRecOn generalizing as' with
  | nil =>
      rcases List.eq_nil_or_concat' as' with rfl | ⟨bs, b, rfl⟩
      · rfl
      · rw [lastTag_concat] at hlast
        exact absurd hlast.symm (hne _ _ (valid_concat.mp h').2)
  | append_singleton as a ih =>
      obtain ⟨has, ha⟩ := valid_concat.mp h
      rcases List.eq_nil_or_concat' as' with rfl | ⟨bs, b, rfl⟩
      · rw [lastTag_concat] at hlast
        exact absurd hlast (hne _ _ ha)
      · obtain ⟨hbs, hb⟩ := valid_concat.mp h'
        rw [lastTag_concat, lastTag_concat] at hlast
        obtain ⟨hprev, hf⟩ := hinj _ _ a b ha hb hlast
        rw [List.map_append, List.map_append, ih has hbs hprev, List.map_singleton,
          List.map_singleton, hf]

end Linked
