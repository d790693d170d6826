import Mathlib.Data.Nat.Digits.Lemmas
import Sanad.Common.Json.Syntax
import Sanad.Common.Utf8

/-! # Strings and numbers in JSON

How Go's `encoding/json` writes a string (`quote`: HTML characters and the two Unicode line
separators escaped, invalid UTF-8 replaced) and reads one (`unquote`: surrogate pairs joined,
everything else that is no character replaced), and how it writes an integer.
-/

namespace Json

/-! ## Writing a string -/

/-- A lower-case hexadecimal digit. -/
def hexDigit (n : ℕ) : UInt8 := if n < 10 then (0x30 + n).toUInt8 else (0x57 + n).toUInt8

/-- How an ASCII byte is written inside a string. -/
def escapeAscii (c : UInt8) : Bytes :=
  if c = backslash ∨ c = quoteMark then [backslash, c]
  else if c = 0x08 then Bytes.ascii "\\b"
  else if c = 0x0c then Bytes.ascii "\\f"
  else if c = 0x0a then Bytes.ascii "\\n"
  else if c = 0x0d then Bytes.ascii "\\r"
  else if c = 0x09 then Bytes.ascii "\\t"
  -- the other control characters, and the three that HTML gives a meaning
  else if c < 0x20 ∨ c = 0x3c ∨ c = 0x3e ∨ c = 0x26 then
    Bytes.ascii "\\u00" ++ [hexDigit (c.toNat / 16), hexDigit (c.toNat % 16)]
  else [c]

/-- What is written for the character at the front of the input, and the number of its bytes. -/
def quoteRune (b : Bytes) : Bytes × ℕ :=
  match b with
  | [] => ([], 1)
  | c :: _ =>
    if c < 0x80 then (escapeAscii c, 1)
    else
      match Utf8.decodeRune b with
      | none => (Bytes.ascii "\\ufffd", 1)
      | some (r, n) =>
        if r = 0x2028 ∨ r = 0x2029 then (Bytes.ascii "\\u202" ++ [hexDigit (r % 16)], n)
        else (b.take n, n)

theorem isHex_hexDigit {n : ℕ} (h : n < 16) : isHex (hexDigit n) = true := by
  revert n
  decide

theorem stringLexer_plain {c : UInt8} (h : 0x20 ≤ c) (hq : c ≠ quoteMark) (hb : c ≠ backslash) :
    stringLexer.step .plain c = some .plain := by
  simp [stringLexer, hq, hb, UInt8.not_lt.mpr h]

/-- Bytes that need no escape leave the scanner between characters. -/
theorem stringLexer_run_plain {b : Bytes}
    (h : ∀ c ∈ b, 0x20 ≤ c ∧ c ≠ quoteMark ∧ c ≠ backslash) :
    stringLexer.run .plain b = some .plain := by
  induction b with
  | nil => rfl
  | cons c b ih =>
      obtain ⟨hlow, hq, hb⟩ := h c List.mem_cons_self
      rw [Lexer.run, stringLexer_plain hlow hq hb]
      exact ih fun d hd => h d (List.mem_cons_of_mem c hd)

theorem stringLexer_run_escapeAscii (c : UInt8) :
    stringLexer.run .plain (escapeAscii c) = some .plain := by
  unfold escapeAscii
  split
  · next h => rcases h with rfl | rfl <;> rfl
  · next hbq =>
      rw [not_or] at hbq
      split
      · rfl
      split
      · rfl
      split
      · rfl
      split
      · rfl
      split
      · rfl
      split
      · have hhigh := isHex_hexDigit (show c.toNat / 16 < 16 by have := c.toNat_lt; omega)
        have hlow := isHex_hexDigit (show c.toNat % 16 < 16 by omega)
        rw [Lexer.run_append (show stringLexer.run .plain (Bytes.ascii "\\u00") = some .u12 by rfl)]
        simp [Lexer.run, stringLexer, hhigh, hlow]
      · next hc =>
          rw [not_or] at hc
          refine stringLexer_run_plain fun d hd => ?_
          rw [List.mem_singleton] at hd
          rw [hd]
          exact ⟨UInt8.not_lt.mp hc.1, hbq.2, hbq.1⟩

/-- Bytes above ASCII need no escape. -/
theorem plain_of_le {c : UInt8} (h : 0x80 ≤ c) : 0x20 ≤ c ∧ c ≠ quoteMark ∧ c ≠ backslash := by
  refine ⟨UInt8.le_trans (by decide) h, ?_, ?_⟩
  · rintro rfl
    exact absurd h (by decide)
  · rintro rfl
    exact absurd h (by decide)

theorem stringLexer_run_quoteRune (b : Bytes) :
    stringLexer.run .plain (quoteRune b).1 = some .plain := by
  unfold quoteRune
  split
  · rfl
  · next c rest =>
      split
      · exact stringLexer_run_escapeAscii c
      · next hc =>
          split
          · rfl
          · next r n hdecode =>
              split
              · have hhex := isHex_hexDigit (show r % 16 < 16 by omega)
                rw [Lexer.run_append
                  (show stringLexer.run .plain (Bytes.ascii "\\u202") = some .u123 by rfl)]
                simp [Lexer.run, stringLexer, hhex]
              · exact stringLexer_run_plain fun d hd =>
                  plain_of_le (Utf8.le_of_decodeRune (UInt8.not_lt.mp hc) hdecode d hd)

/-- A string as `encoding/json` writes it, between its quotes. -/
def quote (s : Bytes) : StringLit :=
  ⟨Bytes.rewrite quoteRune s, by
    refine Bytes.rewrite_induction (P := fun out => stringLexer.accepts .plain out = true)
      quoteRune rfl ?_ s
    intro c b out hout
    rw [Lexer.accepts_append (stringLexer_run_quoteRune (c :: b)), hout]⟩

/-- A string that needs no escape, between its quotes. -/
def verbatim (s : Bytes) (h : ∀ c ∈ s, 0x20 ≤ c ∧ c ≠ quoteMark ∧ c ≠ backslash) : StringLit :=
  ⟨s, by rw [Lexer.accepts, stringLexer_run_plain h]; rfl⟩

/-! ## Reading a string -/

/-- The value of a hexadecimal digit. -/
def hexValue (c : UInt8) : Option ℕ :=
  if isDigit c then some (c.toNat - 0x30)
  else if 0x61 ≤ c ∧ c ≤ 0x66 then some (c.toNat - 0x57)
  else if 0x41 ≤ c ∧ c ≤ 0x46 then some (c.toNat - 0x37)
  else none

/-- The code unit that a hexadecimal escape at the front of the input stands for. -/
def codeUnit : Bytes → Option ℕ
  | c₀ :: c₁ :: d₁ :: d₂ :: d₃ :: d₄ :: _ => do
    if c₀ = backslash ∧ c₁ = 0x75 then
      let v₁ ← hexValue d₁
      let v₂ ← hexValue d₂
      let v₃ ← hexValue d₃
      let v₄ ← hexValue d₄
      some (v₁ * 0x1000 + v₂ * 0x100 + v₃ * 0x10 + v₄)
    else none
  | _ => none

/-- The code point of a surrogate pair. -/
def surrogatePair (r₁ r₂ : ℕ) : Option ℕ :=
  if 0xd800 ≤ r₁ ∧ r₁ < 0xdc00 ∧ 0xdc00 ≤ r₂ ∧ r₂ < 0xe000 then
    some ((r₁ - 0xd800) * 0x400 + (r₂ - 0xdc00) + 0x10000)
  else none

/-- What a letter after a backslash stands for. -/
def unescape (e : UInt8) : UInt8 :=
  if e = 0x62 then 0x08
  else if e = 0x66 then 0x0c
  else if e = 0x6e then 0x0a
  else if e = 0x72 then 0x0d
  else if e = 0x74 then 0x09
  else e

/-- What the characters at the front of a literal stand for, and the number of their bytes. -/
def unquoteRune (b : Bytes) : Bytes × ℕ :=
  match b with
  | [] => ([], 1)
  | c :: rest =>
    if c = backslash then
      match codeUnit b with
      | some r =>
        if 0xd800 ≤ r ∧ r < 0xe000 then
          match (codeUnit (b.drop 6)).bind (surrogatePair r) with
          | some p => (Utf8.encodeRune p, 12)
          | none => (Utf8.encodeRune Utf8.replacement, 6)
        else (Utf8.encodeRune r, 6)
      | none =>
        match rest with
        | e :: _ => ([unescape e], 2)
        | [] => ([], 1)
    else if c < 0x80 then ([c], 1)
    else
      match Utf8.decodeRune b with
      | some (r, n) => (Utf8.encodeRune r, n)
      | none => (Utf8.encodeRune Utf8.replacement, 1)

/-- The string that a literal stands for. -/
def unquote (lit : StringLit) : Bytes := Bytes.rewrite unquoteRune lit.bytes

/-! ## Writing an integer -/

/-- A decimal digit. -/
def decimalDigit (d : ℕ) : UInt8 := (0x30 + d).toUInt8

/-- The decimal digits of a natural number, most significant first. -/
def decimalNat (n : ℕ) : Bytes :=
  if n = 0 then [0x30] else ((Nat.digits 10 n).reverse).map decimalDigit

/-- An integer in decimal. -/
def decimalBytes (z : ℤ) : Bytes :=
  if z < 0 then 0x2d :: decimalNat z.natAbs else decimalNat z.natAbs

/-- The value of a string of decimal digits. -/
def decimalValue (b : Bytes) : ℕ := Nat.ofDigits 10 (b.reverse.map fun c => c.toNat - 0x30)

theorem decimalDigit_toNat {d : ℕ} (h : d < 10) : (decimalDigit d).toNat - 0x30 = d := by
  revert d
  decide

theorem isDigit_decimalDigit {d : ℕ} (h : d < 10) : isDigit (decimalDigit d) = true := by
  revert d
  decide

theorem decimalDigit_ne_zero {d : ℕ} (h : d < 10) (h0 : d ≠ 0) : decimalDigit d ≠ 0x30 := by
  revert d
  decide

theorem isDigit_decimalNat (n : ℕ) : ∀ c ∈ decimalNat n, isDigit c = true := by
  intro c hc
  rw [decimalNat] at hc
  split at hc
  · rw [List.mem_singleton.mp hc]
    rfl
  · obtain ⟨d, hd, rfl⟩ := List.mem_map.mp hc
    exact isDigit_decimalDigit (Nat.digits_lt_base (by norm_num) (List.mem_reverse.mp hd))

theorem decimalValue_decimalNat (n : ℕ) : decimalValue (decimalNat n) = n := by
  rw [decimalNat]
  split
  · next h => rw [h]; rfl
  · have hmap : (Nat.digits 10 n).map (fun d => (decimalDigit d).toNat - 0x30)
        = Nat.digits 10 n := by
      refine (List.map_congr_left fun d hd => ?_).trans (List.map_id _)
      exact decimalDigit_toNat (Nat.digits_lt_base (by norm_num) hd)
    rw [decimalValue, ← List.map_reverse, List.reverse_reverse, List.map_map]
    exact (congrArg (Nat.ofDigits 10) hmap).trans (Nat.ofDigits_digits 10 n)

theorem decimalNat_injective {m n : ℕ} (h : decimalNat m = decimalNat n) : m = n := by
  rw [← decimalValue_decimalNat m, h, decimalValue_decimalNat]

theorem decimalBytes_injective {y z : ℤ} (h : decimalBytes y = decimalBytes z) : y = z := by
  have hminus : ∀ m n : ℕ, 0x2d :: decimalNat m ≠ decimalNat n := by
    intro m n heq
    have := isDigit_decimalNat n 0x2d (by rw [← heq]; exact List.mem_cons_self)
    exact absurd this (by decide)
  rw [decimalBytes, decimalBytes] at h
  split at h <;> split at h
  · have := decimalNat_injective (List.cons.inj h).2
    omega
  · exact absurd h (hminus _ _)
  · exact absurd h.symm (hminus _ _)
  · have := decimalNat_injective h
    omega

/-- Within the integer part, digits are read on. -/
theorem numberLexer_run_int {b : Bytes} (h : ∀ c ∈ b, isDigit c = true) :
    numberLexer.run .int b = some .int := by
  induction b with
  | nil => rfl
  | cons c b ih =>
      have hstep : numberLexer.step .int c = some .int := by
        simp [numberLexer, h c List.mem_cons_self]
      rw [Lexer.run, hstep]
      exact ih fun d hd => h d (List.mem_cons_of_mem c hd)

/-- A positive number starts with a digit other than zero. -/
theorem decimalNat_head {n : ℕ} (h : n ≠ 0) :
    ∃ d ds, d < 10 ∧ d ≠ 0 ∧ decimalNat n = decimalDigit d :: ds := by
  have hne : Nat.digits 10 n ≠ [] := Nat.digits_ne_nil_iff_ne_zero.mpr h
  refine ⟨(Nat.digits 10 n).getLast hne, ((Nat.digits 10 n).dropLast.reverse).map decimalDigit,
    Nat.digits_lt_base (by norm_num) (List.getLast_mem hne), Nat.getLast_digit_ne_zero 10 h, ?_⟩
  rw [decimalNat, if_neg h, ← List.map_cons, ← List.reverse_concat,
    List.dropLast_append_getLast hne]

/-- A decimal natural number is a number, also after a minus sign. -/
theorem numberLexer_accepts_decimalNat {s : NumberState} (hs : s = .start ∨ s = .neg) (n : ℕ) :
    numberLexer.accepts s (decimalNat n) = true := by
  by_cases h : n = 0
  · subst h
    rcases hs with rfl | rfl <;> rfl
  · obtain ⟨d, ds, hd, hd0, hn⟩ := decimalNat_head h
    have hdigit := isDigit_decimalDigit hd
    have hne := decimalDigit_ne_zero hd hd0
    have hminus : decimalDigit d ≠ 0x2d := by
      intro heq
      rw [heq] at hdigit
      exact absurd hdigit (by decide)
    have hstep : numberLexer.step s (decimalDigit d) = some .int := by
      rcases hs with rfl | rfl <;> simp [numberLexer, hdigit, hne, hminus]
    have hds : ∀ c ∈ ds, isDigit c = true := by
      intro c hc
      exact isDigit_decimalNat n c (by rw [hn]; exact List.mem_cons_of_mem _ hc)
    rw [hn, Lexer.accepts_cons hstep, Lexer.accepts, numberLexer_run_int hds]
    rfl

/-- An integer as `encoding/json` writes it. -/
def decimal (z : ℤ) : NumberLit :=
  ⟨decimalBytes z, by
    rw [decimalBytes]
    split
    · rw [Lexer.accepts_cons (show numberLexer.step .start 0x2d = some .neg by rfl)]
      exact numberLexer_accepts_decimalNat (.inr rfl) _
    · exact numberLexer_accepts_decimalNat (.inl rfl) _⟩

theorem decimal_injective {y z : ℤ} (h : decimal y = decimal z) : y = z :=
  decimalBytes_injective (congrArg Lexer.Token.bytes h)

end Json
