import Mathlib.Data.List.Basic

/-! # Byte strings

Go's `[]byte` and `string` are both sequences of bytes. A slice is modelled by its contents, so the
nil slice and the empty slice are one value.
-/

/-- A byte string: the contents of a Go `[]byte` or `string`. -/
abbrev Bytes := List UInt8

namespace Bytes

instance : LawfulBEq Bytes := inferInstanceAs (LawfulBEq (List UInt8))

/-- The bytes of an ASCII literal. -/
def ascii (s : String) : Bytes := s.toList.map fun c => c.toNat.toUInt8

/-! ## Rewriting

A loop that reads a byte string from the left, a few bytes at a time, and appends to its output. It
recurs on the string byte by byte, skipping those that the last round has read already.
-/

section Rewrite

variable (f : Bytes → Bytes × ℕ)

/-- Rewrite after skipping `n` bytes. -/
def rewriteFrom : ℕ → Bytes → Bytes
  | _, [] => []
  | n + 1, _ :: b => rewriteFrom n b
  | 0, c :: b => (f (c :: b)).1 ++ rewriteFrom ((f (c :: b)).2 - 1) b

/-- Rewrite a byte string: `f` is given what is left of it, and returns the output for the bytes at
its front together with their number. -/
def rewrite (b : Bytes) : Bytes := rewriteFrom f 0 b

theorem rewriteFrom_eq_drop (n : ℕ) (b : Bytes) : rewriteFrom f n b = rewrite f (b.drop n) := by
  induction b generalizing n with
  | nil =>
      rw [List.drop_nil]
      cases n <;> rfl
  | cons c b ih =>
      cases n with
      | zero => rfl
      | succ n => exact ih n

/-- One round of the loop. -/
theorem rewrite_cons (c : UInt8) (b : Bytes) :
    rewrite f (c :: b) = (f (c :: b)).1 ++ rewrite f (b.drop ((f (c :: b)).2 - 1)) := by
  rw [← rewriteFrom_eq_drop]
  rfl

/-- What holds of the empty output and is kept by the output of one more round holds of the whole
output. -/
theorem rewrite_induction {P : Bytes → Prop} (hnil : P [])
    (hround : ∀ c b out, P out → P ((f (c :: b)).1 ++ out)) (b : Bytes) : P (rewrite f b) := by
  induction hn : b.length using Nat.strongRecOn generalizing b with
  | ind n ih =>
    cases b with
    | nil => exact hnil
    | cons c b =>
        rw [rewrite_cons]
        refine hround c b _ (ih (b.drop ((f (c :: b)).2 - 1)).length ?_ _ rfl)
        rw [← hn, List.length_drop, List.length_cons]
        omega

end Rewrite

/-! ## Splitting -/

/-- What lies between two separators has none. -/
theorem not_mem_of_mem_splitOn {sep : UInt8} {part b : Bytes} (h : part ∈ b.splitOn sep) :
    sep ∉ part := by
  induction b generalizing part with
  | nil =>
      obtain rfl : part = [] := by simpa using h
      exact List.not_mem_nil
  | cons c b ih =>
      rw [List.splitOn_cons_eq_if_modifyHead] at h
      split at h
      · rcases List.mem_cons.mp h with rfl | h
        · exact List.not_mem_nil
        · exact ih h
      · next hc =>
          obtain ⟨first, parts, hsplit⟩ := List.exists_cons_of_ne_nil (List.splitOn_ne_nil sep b)
          rw [hsplit] at h ih
          rcases List.mem_cons.mp h with rfl | h
          · have hfirst := ih List.mem_cons_self
            intro hmem
            rcases List.mem_cons.mp hmem with rfl | hmem
            · simp at hc
            · exact hfirst hmem
          · exact ih (List.mem_cons_of_mem _ h)

/-- The first separator of a string tells where its first part ends. -/
theorem append_sep_inj {sep : UInt8} {a a' b b' : Bytes} (ha : sep ∉ a) (ha' : sep ∉ a')
    (h : a ++ sep :: b = a' ++ sep :: b') : a = a' ∧ b = b' := by
  have hsplit := congrArg (List.splitOn sep) h
  rw [List.splitOn_append_cons_self_of_not_mem ha, List.splitOn_append_cons_self_of_not_mem ha'] at hsplit
  obtain rfl := (List.cons.inj hsplit).1
  exact ⟨rfl, (List.cons.inj (List.append_cancel_left h)).2⟩

end Bytes
