import Mathlib.Data.List.Forall2
import Sanad.Common.Json.Encode
import Sanad.Common.Json.Strings

/-! # Strings come back

A string of valid UTF-8 is read back as it was written, and what is read from a literal is valid
UTF-8. Different valid strings are therefore written differently.
-/

namespace Bytes

/-- A chunk that the loop reads as a whole, and what follows it. -/
theorem rewrite_append {f : Bytes → Bytes × ℕ} {x y t : Bytes} (hx : x ≠ [])
    (hf : f (x ++ t) = (y, x.length)) : rewrite f (x ++ t) = y ++ rewrite f t := by
  obtain ⟨c, x, rfl⟩ := List.exists_cons_of_ne_nil hx
  rw [List.cons_append] at hf ⊢
  rw [rewrite_cons, hf]
  simp

end Bytes

namespace Json

/-! ## Reading what was written -/

theorem hexValue_hexDigit {n : ℕ} (h : n < 16) : hexValue (hexDigit n) = some n := by
  revert n
  decide

/-- A letter other than u after a backslash. -/
theorem unquoteRune_escape {e : UInt8} (h : e ≠ 0x75) (t : Bytes) :
    unquoteRune (backslash :: e :: t) = ([unescape e], 2) := by
  have hcode : codeUnit (backslash :: e :: t) = none := by
    rcases t with _ | ⟨a, _ | ⟨b, _ | ⟨c, _ | ⟨d, t⟩⟩⟩⟩ <;> simp [codeUnit, h]
  rw [unquoteRune, if_pos rfl, hcode]

/-- The escape of a code unit that is no surrogate. -/
theorem unquoteRune_unicode {a b c d : UInt8} {r : ℕ} {t : Bytes}
    (hcode : codeUnit (backslash :: 0x75 :: a :: b :: c :: d :: t) = some r)
    (hr : ¬(0xd800 ≤ r ∧ r < 0xe000)) :
    unquoteRune (backslash :: 0x75 :: a :: b :: c :: d :: t) = (Utf8.encodeRune r, 6) := by
  rw [unquoteRune, if_pos rfl, hcode]
  simp only [if_neg hr]

theorem unquoteRune_escapeAscii {c : UInt8} (hc : c < 0x80) (t : Bytes) :
    unquoteRune (escapeAscii c ++ t) = ([c], (escapeAscii c).length) := by
  unfold escapeAscii
  split
  · next h => rcases h with rfl | rfl <;> exact unquoteRune_escape (by decide) t
  next hbq =>
  split
  · next h => rw [h]; exact unquoteRune_escape (by decide) t
  split
  · next h => rw [h]; exact unquoteRune_escape (by decide) t
  split
  · next h => rw [h]; exact unquoteRune_escape (by decide) t
  split
  · next h => rw [h]; exact unquoteRune_escape (by decide) t
  split
  · next h => rw [h]; exact unquoteRune_escape (by decide) t
  split
  · have hlt : c.toNat < 0x80 := hc
    have hhigh := hexValue_hexDigit (show c.toNat / 16 < 16 by omega)
    have hlow := hexValue_hexDigit (show c.toNat % 16 < 16 by omega)
    have hzero : hexValue 0x30 = some 0 := rfl
    have hcode : codeUnit (backslash :: 0x75 :: 0x30 :: 0x30 :: hexDigit (c.toNat / 16) ::
        hexDigit (c.toNat % 16) :: t) = some c.toNat := by
      simp [codeUnit, hhigh, hlow, hzero]
      omega
    have hrune := unquoteRune_unicode hcode (by omega)
    rw [Utf8.encodeRune, if_pos hlt, Utf8.toUInt8_eq rfl] at hrune
    exact hrune
  · rw [not_or] at hbq
    simp [unquoteRune, hbq.1, hc]

/-- What is written for a character is read as that character, whatever follows. -/
theorem unquoteRune_quoteRune {b : Bytes} {r n : ℕ} (h : Utf8.decodeRune b = some (r, n)) (t : Bytes) :
    unquoteRune ((quoteRune b).1 ++ t) = (b.take n, (quoteRune b).1.length) ∧
      (quoteRune b).1 ≠ [] ∧ (quoteRune b).2 = n := by
  obtain ⟨hpos, hle, hencode, hdecode⟩ := Utf8.decodeRune_spec h
  cases b with
  | nil => cases h
  | cons c b =>
  by_cases hc : c < 0x80
  · have hn : (c.toNat, 1) = (r, n) := by simpa [Utf8.decodeRune, hc] using h
    obtain ⟨-, rfl⟩ := Prod.mk.inj hn
    have hne : escapeAscii c ≠ [] := by
      unfold escapeAscii
      split_ifs <;> simp [Bytes.ascii]
    simp only [quoteRune, if_pos hc]
    exact ⟨unquoteRune_escapeAscii hc t, hne, trivial⟩
  · simp only [quoteRune, if_neg hc, h]
    split
    · next hr =>
        have hcode : codeUnit (Bytes.ascii "\\u202" ++ [hexDigit (r % 16)] ++ t) = some r := by
          rcases hr with rfl | rfl <;> rfl
        have hrune := unquoteRune_unicode hcode (by omega)
        exact ⟨by rw [← hencode]; exact hrune, by simp, rfl⟩
    · have hhead : ((c :: b).take n) = c :: b.take (n - 1) := by
        obtain ⟨m, rfl⟩ : ∃ m, n = m + 1 := ⟨n - 1, by omega⟩
        rfl
      have hslash : c ≠ backslash := by
        rintro rfl
        exact hc (by decide)
      refine ⟨?_, by rw [hhead]; simp, rfl⟩
      have hdec := hdecode t
      rw [hhead, List.cons_append] at hdec ⊢
      simp only [unquoteRune, if_neg hslash, if_neg hc, hdec, hencode, hhead, List.length_cons,
        List.length_take]
      rw [List.length_cons] at hle
      congr 1
      omega

/-- A string of valid UTF-8 is read back as it was written. -/
theorem unquote_quote {s : Bytes} (h : Utf8.valid s = true) : unquote (quote s) = s := by
  show Bytes.rewrite unquoteRune (Bytes.rewrite quoteRune s) = s
  refine Utf8.valid_induction (P := fun s =>
    Bytes.rewrite unquoteRune (Bytes.rewrite quoteRune s) = s) rfl ?_ h
  intro b r n hdec ih
  obtain ⟨hpos, hle, -, -⟩ := Utf8.decodeRune_spec hdec
  cases b with
  | nil => cases hdec
  | cons c b =>
      obtain ⟨hunquote, hne, htwo⟩ :=
        unquoteRune_quoteRune hdec (Bytes.rewrite quoteRune ((c :: b).drop n))
      have hdrop : b.drop (n - 1) = (c :: b).drop n := by
        obtain ⟨m, rfl⟩ : ∃ m, n = m + 1 := ⟨n - 1, by omega⟩
        rfl
      rw [Bytes.rewrite_cons, htwo, hdrop, Bytes.rewrite_append hne hunquote, ih, List.take_append_drop]

/-- Different valid strings are written differently. -/
theorem quote_injective {s s' : Bytes} (hs : Utf8.valid s = true) (hs' : Utf8.valid s' = true)
    (h : quote s = quote s') : s = s' := by
  rw [← unquote_quote hs, h, unquote_quote hs']

theorem ofString_injOn {s t : Bytes} (hs : Utf8.valid s = true) (ht : Utf8.valid t = true)
    (h : ofString s = ofString t) : s = t :=
  quote_injective hs ht (Json.string.inj h)

/-- Lists with the same images agree if any two elements with the same image do. -/
theorem forall₂_of_map_eq {α β : Type} {R : α → α → Prop} {f : α → β} {as bs : List α}
    (hf : ∀ a ∈ as, ∀ b ∈ bs, f a = f b → R a b) (h : as.map f = bs.map f) :
    List.Forall₂ R as bs := by
  induction as generalizing bs with
  | nil =>
      rw [List.map_eq_nil_iff.mp h.symm]
      exact List.Forall₂.nil
  | cons a as ih =>
      cases bs with
      | nil => cases h
      | cons b bs =>
          obtain ⟨hhead, htail⟩ := List.cons.inj h
          refine .cons (hf a List.mem_cons_self b List.mem_cons_self hhead) (ih ?_ htail)
          exact fun x hx y hy => hf x (List.mem_cons_of_mem _ hx) y (List.mem_cons_of_mem _ hy)

theorem eq_of_map_eq_map {α β : Type} {f : α → β} {s t : List α}
    (hf : ∀ x ∈ s, ∀ y ∈ t, f x = f y → x = y) (h : s.map f = t.map f) : s = t := by
  rw [← List.forall₂_eq_eq_eq]
  exact forall₂_of_map_eq hf h

theorem map_ofString_injOn {s t : List Bytes} (hs : ∀ x ∈ s, Utf8.valid x = true)
    (ht : ∀ x ∈ t, Utf8.valid x = true) (h : s.map ofString = t.map ofString) : s = t :=
  eq_of_map_eq_map (fun x hx y hy => ofString_injOn (hs x hx) (ht y hy)) h

/-! ## What is read is valid -/

section Valid

/-- A valid chunk that the loop reads, after which a literal goes on. -/
structure Reads (b : Bytes) : Prop where
  valid : ∀ t, Utf8.valid t = true → Utf8.valid ((unquoteRune b).1 ++ t) = true
  accepts : stringLexer.accepts .plain (b.drop (unquoteRune b).2) = true
  pos : 0 < (unquoteRune b).2

theorem Reads.of_eq {b e : Bytes} {n : ℕ} (hread : unquoteRune b = (e, n)) (hpos : 0 < n)
    (hvalid : ∀ t, Utf8.valid t = true → Utf8.valid (e ++ t) = true)
    (haccepts : stringLexer.accepts .plain (b.drop n) = true) : Reads b :=
  ⟨by rwa [hread], by rwa [hread], by rwa [hread]⟩

/-- A state from which the byte has no transition accepts nothing that starts with it. -/
theorem step_of_accepts {q : StringState} {c : UInt8} {b : Bytes}
    (h : stringLexer.accepts q (c :: b) = true) :
    ∃ q', stringLexer.step q c = some q' ∧ stringLexer.accepts q' b = true := by
  cases hstep : stringLexer.step q c with
  | none =>
      rw [Lexer.accepts, Lexer.run, hstep] at h
      cases h
  | some q' =>
      rw [Lexer.accepts_cons hstep] at h
      exact ⟨q', rfl, h⟩

theorem hexValue_of_isHex {c : UInt8} (h : isHex c = true) : ∃ n, hexValue c = some n ∧ n < 16 := by
  have hall : ∀ n < 256, isHex (UInt8.ofNat n) = true →
      ∃ m, m < 16 ∧ hexValue (UInt8.ofNat n) = some m := by decide +kernel
  obtain ⟨m, hm, hval⟩ := hall c.toNat c.toNat_lt (by rwa [UInt8.ofNat_toNat])
  rw [UInt8.ofNat_toNat] at hval
  exact ⟨m, hval, hm⟩

/-- One hexadecimal digit of an escape. -/
theorem hex_of_accepts {q : StringState} (q' : StringState) {b : Bytes}
    (hstep : ∀ c, stringLexer.step q c = if isHex c then some q' else none) (hfinal : q ≠ .plain)
    (h : stringLexer.accepts q b = true) :
    ∃ c n t, b = c :: t ∧ hexValue c = some n ∧ n < 16 ∧ stringLexer.accepts q' t = true := by
  cases b with
  | nil =>
      cases q <;> first | exact absurd rfl hfinal | cases h
  | cons c t =>
      obtain ⟨q₁, hq₁, ht⟩ := step_of_accepts h
      rw [hstep] at hq₁
      split at hq₁
      · next hhex =>
          cases hq₁
          obtain ⟨n, hn, hlt⟩ := hexValue_of_isHex hhex
          exact ⟨c, n, t, rfl, hn, hlt, ht⟩
      · cases hq₁

/-- A backslash with the letter u is followed by the digits of a code unit. -/
theorem codeUnit_of_accepts {b : Bytes} (h : stringLexer.accepts .u b = true) :
    ∃ r, codeUnit (backslash :: 0x75 :: b) = some r ∧ r < 0x10000 ∧
      stringLexer.accepts .plain (b.drop 4) = true := by
  obtain ⟨c₁, n₁, b₁, rfl, h₁, hlt₁, hb₁⟩ :=
    hex_of_accepts .u1 (fun c => rfl) (by simp) h
  obtain ⟨c₂, n₂, b₂, rfl, h₂, hlt₂, hb₂⟩ :=
    hex_of_accepts .u12 (fun c => rfl) (by simp) hb₁
  obtain ⟨c₃, n₃, b₃, rfl, h₃, hlt₃, hb₃⟩ :=
    hex_of_accepts .u123 (fun c => rfl) (by simp) hb₂
  obtain ⟨c₄, n₄, b₄, rfl, h₄, hlt₄, hb₄⟩ :=
    hex_of_accepts .plain (fun c => rfl) (by simp) hb₃
  refine ⟨n₁ * 0x1000 + n₂ * 0x100 + n₃ * 0x10 + n₄, ?_, by omega, hb₄⟩
  simp [codeUnit, h₁, h₂, h₃, h₄]

/-- What is read as a code unit starts with a backslash and the letter u. -/
theorem head_of_codeUnit {b : Bytes} {r : ℕ} (h : codeUnit b = some r) :
    ∃ t, b = backslash :: 0x75 :: t := by
  rcases b with _ | ⟨c₀, _ | ⟨c₁, _ | ⟨d₁, _ | ⟨d₂, _ | ⟨d₃, _ | ⟨d₄, t⟩⟩⟩⟩⟩⟩ <;> try cases h
  rw [codeUnit] at h
  split at h
  · next hc => exact ⟨_, by rw [hc.1, hc.2]⟩
  · cases h

theorem accepts_u {b : Bytes} (h : stringLexer.accepts .plain (backslash :: 0x75 :: b) = true) :
    stringLexer.accepts .u b = true := by
  rwa [Lexer.accepts_cons (show stringLexer.step .plain backslash = some .esc from rfl),
    Lexer.accepts_cons (show stringLexer.step .esc 0x75 = some .u from rfl)] at h

theorem isScalar_replacement : Utf8.IsScalar Utf8.replacement := .inr (by decide)

/-- Two code units that make a pair stand for a code point. -/
theorem isScalar_of_surrogatePair {r r' p : ℕ} (h : surrogatePair r r' = some p) :
    Utf8.IsScalar p := by
  rw [surrogatePair] at h
  split at h <;> cases h
  exact .inr (by omega)

/-- A hexadecimal escape, alone or as the first of a surrogate pair. -/
theorem reads_unicode {b : Bytes} (h : stringLexer.accepts .plain (backslash :: 0x75 :: b) = true) :
    Reads (backslash :: 0x75 :: b) := by
  obtain ⟨r, hcode, hlt, hrest⟩ := codeUnit_of_accepts (accepts_u h)
  by_cases hsurrogate : 0xd800 ≤ r ∧ r < 0xe000
  · cases hpair : (codeUnit (b.drop 4)).bind (surrogatePair r) with
    | none =>
        have hread : unquoteRune (backslash :: 0x75 :: b)
            = (Utf8.encodeRune Utf8.replacement, 6) := by
          rw [unquoteRune, if_pos rfl, hcode]
          simp only [if_pos hsurrogate, List.drop_succ_cons, hpair]
        exact .of_eq hread (by decide)
          (fun t => Utf8.valid_encodeRune_append isScalar_replacement) hrest
    | some p =>
        have hread : unquoteRune (backslash :: 0x75 :: b) = (Utf8.encodeRune p, 12) := by
          rw [unquoteRune, if_pos rfl, hcode]
          simp only [if_pos hsurrogate, List.drop_succ_cons, hpair]
        obtain ⟨r', hcode', hp⟩ := Option.bind_eq_some_iff.mp hpair
        -- the second unit is an escape of its own, which the lexer has accepted as well
        obtain ⟨t, ht⟩ := head_of_codeUnit hcode'
        rw [ht] at hrest
        obtain ⟨-, -, -, hrest'⟩ := codeUnit_of_accepts (accepts_u hrest)
        have hdrop : (backslash :: 0x75 :: b).drop 12 = t.drop 4 := by
          have := congrArg (List.drop 6) ht
          simpa using this
        exact .of_eq hread (by decide)
          (fun t => Utf8.valid_encodeRune_append (isScalar_of_surrogatePair hp)) (hdrop ▸ hrest')
  · have hread : unquoteRune (backslash :: 0x75 :: b) = (Utf8.encodeRune r, 6) := by
      rw [unquoteRune, if_pos rfl, hcode]
      simp only [if_neg hsurrogate]
    have hscalar : Utf8.IsScalar r := by
      rw [Utf8.IsScalar]
      omega
    exact .of_eq hread (by decide) (fun t => Utf8.valid_encodeRune_append hscalar) hrest

/-- A backslash, with the letter u or another one. -/
theorem reads_escape {b : Bytes} (h : stringLexer.accepts .plain (backslash :: b) = true) :
    Reads (backslash :: b) := by
  have hb := h
  rw [Lexer.accepts_cons (show stringLexer.step .plain backslash = some .esc from rfl)] at hb
  cases b with
  | nil => cases hb
  | cons e b =>
      obtain ⟨q, hq, hb⟩ := step_of_accepts hb
      by_cases hu : e = 0x75
      · subst hu
        exact reads_unicode h
      · have hescape : e ∈ escapes ∧ q = .plain := by
          simp only [stringLexer, if_neg hu] at hq
          split at hq <;> cases hq
          next he => exact ⟨he, rfl⟩
        have hascii : ∀ e ∈ escapes, unescape e < 0x80 := by decide +kernel
        rw [hescape.2] at hb
        exact .of_eq (unquoteRune_escape hu b) (by decide)
          (fun t => Utf8.valid_cons_of_lt (hascii e hescape.1)) hb

/-- A byte above ASCII, at the front of an encoding or in none. -/
theorem reads_rune {c : UInt8} {b : Bytes} (hslash : c ≠ backslash) (hc : ¬c < 0x80)
    (h : stringLexer.accepts .plain (c :: b) = true)
    (hb : stringLexer.accepts .plain b = true) : Reads (c :: b) := by
  cases hdec : Utf8.decodeRune (c :: b) with
  | none =>
      have hread : unquoteRune (c :: b) = (Utf8.encodeRune Utf8.replacement, 1) := by
        simp only [unquoteRune, if_neg hslash, if_neg hc, hdec]
      exact .of_eq hread (by decide)
        (fun t => Utf8.valid_encodeRune_append isScalar_replacement) hb
  | some p =>
      obtain ⟨r, n⟩ := p
      obtain ⟨hpos, hle, hencode, hdecode⟩ := Utf8.decodeRune_spec hdec
      have hread : unquoteRune (c :: b) = (Utf8.encodeRune r, n) := by
        simp only [unquoteRune, if_neg hslash, if_neg hc, hdec]
      have hrun : stringLexer.run .plain ((c :: b).take n) = some .plain :=
        stringLexer_run_plain fun d hd =>
          plain_of_le (Utf8.le_of_decodeRune (UInt8.not_lt.mp hc) hdec d hd)
      refine .of_eq hread hpos (fun t ht => ?_) ?_
      · have hlen : ((c :: b).take n).length = n := List.length_take_of_le hle
        rw [hencode, Utf8.valid_of_decodeRune (hdecode t), List.drop_left' hlen, ht]
      · have happ := Lexer.accepts_append hrun ((c :: b).drop n)
        rw [List.take_append_drop] at happ
        rw [← happ]
        exact h

theorem reads_of_accepts {b : Bytes} (hne : b ≠ []) (h : stringLexer.accepts .plain b = true) :
    Reads b := by
  obtain ⟨c, b, rfl⟩ := List.exists_cons_of_ne_nil hne
  by_cases hslash : c = backslash
  · subst hslash
    exact reads_escape h
  obtain ⟨q, hq, hb⟩ := step_of_accepts h
  have hplain : q = .plain := by
    simp only [stringLexer, if_neg hslash] at hq
    split at hq
    · cases hq
    · split at hq <;> cases hq
      rfl
  rw [hplain] at hb
  by_cases hc : c < 0x80
  · have hread : unquoteRune (c :: b) = ([c], 1) := by
      simp [unquoteRune, hslash, hc]
    exact .of_eq hread (by decide) (fun t => Utf8.valid_cons_of_lt hc) hb
  · exact reads_rune hslash hc h hb

/-- What a literal stands for is valid UTF-8. -/
theorem valid_unquote (lit : StringLit) : Utf8.valid (unquote lit) = true := by
  obtain ⟨b, hb⟩ := lit
  show Utf8.valid (Bytes.rewrite unquoteRune b) = true
  induction hn : b.length using Nat.strongRecOn generalizing b with
  | ind m ih =>
    cases b with
    | nil => rfl
    | cons c b =>
        obtain ⟨hvalid, haccepts, hpos⟩ := reads_of_accepts (List.cons_ne_nil c b) hb
        rw [Bytes.rewrite_cons]
        refine hvalid _ (ih (b.drop ((unquoteRune (c :: b)).2 - 1)).length ?_ _ ?_ rfl)
        · rw [← hn, List.length_drop, List.length_cons]
          omega
        · obtain ⟨k, hk⟩ : ∃ k, (unquoteRune (c :: b)).2 = k + 1 := ⟨_, (Nat.succ_pred_eq_of_pos hpos).symm⟩
          rw [hk] at haccepts ⊢
          exact haccepts

end Valid

end Json
