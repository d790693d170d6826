import Sanad.Common.Json.Fields

/-! # Strings without HTML escaping

What a `json.Encoder` writes for a string after `SetEscapeHTML(false)`: the three characters that HTML
gives a meaning stand for themselves. A string that is written this way is read back like any other.
-/

namespace Json

/-- The characters that HTML gives a meaning. -/
def htmlChars : Bytes := [0x3c, 0x3e, 0x26]

/-- What is written for the character at the front of the input, and the number of its bytes. -/
def plainRune (b : Bytes) : Bytes × ℕ :=
  match b with
  | [] => ([], 1)
  | c :: rest => if c ∈ htmlChars then ([c], 1) else quoteRune (c :: rest)

theorem lt_of_mem_htmlChars {c : UInt8} (h : c ∈ htmlChars) :
    c < 0x80 ∧ 0x20 ≤ c ∧ c ≠ quoteMark ∧ c ≠ backslash := by
  rw [htmlChars, List.mem_cons, List.mem_cons, List.mem_singleton] at h
  rcases h with rfl | rfl | rfl <;> decide

theorem stringLexer_run_plainRune (b : Bytes) :
    stringLexer.run .plain (plainRune b).1 = some .plain := by
  cases b with
  | nil => rfl
  | cons c b =>
      rw [plainRune]
      split
      · next hc =>
          refine stringLexer_run_plain fun d hd => ?_
          rw [List.mem_singleton.mp hd]
          exact (lt_of_mem_htmlChars hc).2
      · exact stringLexer_run_quoteRune (c :: b)

/-- A string as it is written without HTML escaping, between its quotes. -/
def quotePlain (s : Bytes) : StringLit :=
  ⟨Bytes.rewrite plainRune s, by
    refine Bytes.rewrite_induction (P := fun out => stringLexer.accepts .plain out = true)
      plainRune rfl ?_ s
    intro c b out hout
    rw [Lexer.accepts_append (stringLexer_run_plainRune (c :: b)), hout]⟩

/-- A Go `string`, without HTML escaping. -/
def ofPlainString (s : Bytes) : Json := .string (quotePlain s)

/-- A string after it was written without HTML escaping and read. -/
def rereadPlain (s : Bytes) : Bytes := unquote (quotePlain s)

/-! ## Strings come back -/

/-- What is written for a character is read as that character, whatever follows. -/
theorem unquoteRune_plainRune {b : Bytes} {r n : ℕ} (h : Utf8.decodeRune b = some (r, n)) (t : Bytes) :
    unquoteRune ((plainRune b).1 ++ t) = (b.take n, (plainRune b).1.length) ∧
      (plainRune b).1 ≠ [] ∧ (plainRune b).2 = n := by
  cases b with
  | nil => cases h
  | cons c b =>
      by_cases hc : c ∈ htmlChars
      · obtain ⟨hascii, -, -, hslash⟩ := lt_of_mem_htmlChars hc
        have hn : (c.toNat, 1) = (r, n) := by simpa [Utf8.decodeRune, hascii] using h
        obtain ⟨-, rfl⟩ := Prod.mk.inj hn
        rw [plainRune, if_pos hc]
        exact ⟨by simp [unquoteRune, hslash, hascii], List.cons_ne_nil c [], rfl⟩
      · rw [plainRune, if_neg hc]
        exact unquoteRune_quoteRune h t

/-- A string of valid UTF-8 comes back if each of its characters does. -/
theorem rewrite_unquoteRune {f : Bytes → Bytes × ℕ}
    (hf : ∀ {b r n}, Utf8.decodeRune b = some (r, n) → ∀ t,
      unquoteRune ((f b).1 ++ t) = (b.take n, (f b).1.length) ∧ (f b).1 ≠ [] ∧ (f b).2 = n)
    {s : Bytes} (h : Utf8.valid s = true) :
    Bytes.rewrite unquoteRune (Bytes.rewrite f s) = s := by
  refine Utf8.valid_induction (P := fun s =>
    Bytes.rewrite unquoteRune (Bytes.rewrite f s) = s) rfl ?_ h
  intro b r n hdec ih
  obtain ⟨hpos, hle, -, -⟩ := Utf8.decodeRune_spec hdec
  cases b with
  | nil => cases hdec
  | cons c b =>
      obtain ⟨hunquote, hne, htwo⟩ := hf hdec (Bytes.rewrite f ((c :: b).drop n))
      have hdrop : b.drop (n - 1) = (c :: b).drop n := by
        obtain ⟨m, rfl⟩ : ∃ m, n = m + 1 := ⟨n - 1, by omega⟩
        rfl
      rw [Bytes.rewrite_cons, htwo, hdrop, Bytes.rewrite_append hne hunquote, ih,
        List.take_append_drop]

theorem rereadPlain_eq_self_iff {s : Bytes} : rereadPlain s = s ↔ Utf8.valid s = true := by
  constructor
  · intro h
    rw [← h]
    exact valid_unquote _
  · exact rewrite_unquoteRune unquoteRune_plainRune

theorem decodeText_ofPlainString (old s : Bytes) :
    decodeText old (.ofPlainString s) = some (rereadPlain s) := rfl

end Json
