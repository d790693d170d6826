import Mathlib.Data.Nat.Digits.Lemmas

/-! # Digit strings

Strings of digits, most significant first, that keep their leading zeros. Such a string is the same
thing as its number together with the count of its leading zeros, whatever the base; a codec that
changes the base and carries the zeros over separately loses nothing in either direction.
-/

namespace Radix

/-! ## Leading symbols -/

section Leading

variable {α β : Type*} [DecidableEq α] [DecidableEq β]

/-- How many copies of `z` a string starts with. -/
def leading (z : α) : List α → ℕ
  | [] => 0
  | a :: l => if a = z then leading z l + 1 else 0

/-- Renaming the symbols keeps the count, as long as nothing else is renamed to the one counted. -/
theorem leading_map {f : α → β} {z : α} {l : List α} (h : ∀ a ∈ l, f a = f z → a = z) :
    leading (f z) (l.map f) = leading z l := by
  induction l with
  | nil => rfl
  | cons a l ih =>
      rw [List.map_cons, leading, leading]
      by_cases ha : a = z
      · rw [if_pos ha, if_pos (congrArg f ha), ih fun c hc => h c (List.mem_cons_of_mem a hc)]
      · rw [if_neg ha, if_neg fun hf => ha (h a List.mem_cons_self hf)]

theorem leading_replicate_append (n : ℕ) (z : α) (l : List α) :
    leading z (List.replicate n z ++ l) = n + leading z l := by
  induction n with
  | zero => simp
  | succ n ih =>
      rw [List.replicate_succ, List.cons_append, leading, if_pos rfl, ih]
      omega

theorem leading_eq_zero {z : α} {l : List α} (h : ∀ a ∈ l.head?, a ≠ z) : leading z l = 0 := by
  cases l with
  | nil => rfl
  | cons a l => exact if_neg (h a rfl)

/-- A string is its leading symbols and what starts otherwise. -/
theorem exists_eq_replicate_append (z : α) (l : List α) :
    ∃ m, l = List.replicate (leading z l) z ++ m ∧ ∀ a ∈ m.head?, a ≠ z := by
  induction l with
  | nil => exact ⟨[], rfl, by simp⟩
  | cons a l ih =>
      by_cases ha : a = z
      · obtain ⟨m, hm, hhead⟩ := ih
        refine ⟨m, ?_, hhead⟩
        rw [leading, if_pos ha, List.replicate_succ, List.cons_append, ← hm, ha]
      · refine ⟨a :: l, ?_, fun c hc => ?_⟩
        · rw [leading, if_neg ha]
          rfl
        · obtain rfl : a = c := by simpa using hc
          exact ha

end Leading

/-! ## Numbers -/

/-- The number that a digit string denotes. -/
def number (b : ℕ) (l : List ℕ) : ℕ := l.foldl (fun x d => x * b + d) 0

/-- The digit string of a number, after so many zeros. -/
def digitString (b zeros x : ℕ) : List ℕ := List.replicate zeros 0 ++ (Nat.digits b x).reverse

theorem number_concat (b : ℕ) (l : List ℕ) (d : ℕ) : number b (l ++ [d]) = number b l * b + d := by
  simp [number, List.foldl_append]

theorem number_eq_ofDigits (b : ℕ) (l : List ℕ) : number b l = Nat.ofDigits b l.reverse := by
  induction l using List.reverseRecOn with
  | nil => rfl
  | append_singleton l d ih =>
      rw [number_concat, ih, List.reverse_append, List.reverse_singleton, List.singleton_append,
        Nat.ofDigits_cons, Nat.mul_comm, Nat.add_comm]

@[simp]
theorem number_digitString (b zeros x : ℕ) : number b (digitString b zeros x) = x := by
  rw [number_eq_ofDigits, digitString, List.reverse_append, List.reverse_reverse,
    List.reverse_replicate, Nat.ofDigits_append_replicate_zero, Nat.ofDigits_digits]

theorem lt_of_mem_digitString {b zeros x d : ℕ} (hb : 1 < b) (h : d ∈ digitString b zeros x) :
    d < b := by
  rcases List.mem_append.mp h with h | h
  · rw [List.eq_of_mem_replicate h]
    omega
  · exact Nat.digits_lt_base hb (List.mem_reverse.mp h)

@[simp]
theorem leading_digitString (b zeros x : ℕ) : leading 0 (digitString b zeros x) = zeros := by
  have hhead : ∀ d ∈ (Nat.digits b x).reverse.head?, d ≠ 0 := by
    intro d hd
    rw [List.head?_reverse] at hd
    obtain ⟨hne, rfl⟩ := List.mem_getLast?_eq_getLast hd
    exact Nat.getLast_digit_ne_zero b (Nat.digits_ne_nil_iff_ne_zero.mp hne)
  rw [digitString, leading_replicate_append, leading_eq_zero hhead, Nat.add_zero]

/-- A digit string is the digit string of its number, after its own leading zeros. -/
theorem digitString_number {b : ℕ} (hb : 1 < b) {l : List ℕ} (h : ∀ d ∈ l, d < b) :
    digitString b (leading 0 l) (number b l) = l := by
  obtain ⟨m, hl, hhead⟩ := exists_eq_replicate_append 0 l
  have hnumber : number b l = Nat.ofDigits b m.reverse := by
    rw [number_eq_ofDigits, hl, List.reverse_append, List.reverse_replicate,
      Nat.ofDigits_append_replicate_zero]
  -- without its zeros the string is what division by the base gives back
  have hdigits : Nat.digits b (Nat.ofDigits b m.reverse) = m.reverse := by
    refine Nat.digits_ofDigits b hb _ (fun d hd => h d ?_) fun hne => hhead _ ?_
    · rw [hl]
      exact List.mem_append_right _ (List.mem_reverse.mp hd)
    · rw [← List.getLast?_reverse, List.getLast?_eq_some_getLast hne]
      rfl
  rw [digitString, hnumber, hdigits, List.reverse_reverse, ← hl]

end Radix
