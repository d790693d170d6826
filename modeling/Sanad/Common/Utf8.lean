import Sanad.Common.Bytes

/-! # UTF-8

Decoding the code point at the front of a byte string, as Go's `utf8.DecodeRune` does: shortest
forms only, no surrogates, nothing above U+10FFFF.
-/

namespace Utf8

/-- The byte lies in a range. -/
def within (low high c : UInt8) : Bool := low ≤ c && c ≤ high

/-- The six payload bits of a continuation byte. -/
def tail (c : UInt8) : ℕ := c.toNat % 0x40

/-- The second byte of an encoding that starts with `c₀`: its range excludes overlong forms,
surrogates and code points above U+10FFFF. -/
def second (c₀ c₁ : UInt8) : Bool :=
  within (if c₀ = 0xe0 then 0xa0 else if c₀ = 0xf0 then 0x90 else 0x80)
    (if c₀ = 0xed then 0x9f else if c₀ = 0xf4 then 0x8f else 0xbf) c₁

/-- A continuation byte. -/
def continues (c : UInt8) : Bool := within 0x80 0xbf c

/-- The code point at the front of the input and the number of its bytes, if the input starts with a
valid encoding. -/
def decodeRune : Bytes → Option (ℕ × ℕ)
  | [] => none
  | c₀ :: rest =>
    if c₀ < 0x80 then some (c₀.toNat, 1)
    else if within 0xc2 0xdf c₀ then
      match rest with
      | c₁ :: _ =>
        if second c₀ c₁ then some (c₀.toNat % 0x20 * 0x40 + tail c₁, 2) else none
      | _ => none
    else if within 0xe0 0xef c₀ then
      match rest with
      | c₁ :: c₂ :: _ =>
        if second c₀ c₁ && continues c₂ then
          some (c₀.toNat % 0x10 * 0x1000 + tail c₁ * 0x40 + tail c₂, 3)
        else none
      | _ => none
    else if within 0xf0 0xf4 c₀ then
      match rest with
      | c₁ :: c₂ :: c₃ :: _ =>
        if second c₀ c₁ && continues c₂ && continues c₃ then
          some (c₀.toNat % 0x8 * 0x40000 + tail c₁ * 0x1000 + tail c₂ * 0x40 + tail c₃, 4)
        else none
      | _ => none
    else none

/-- The encoding of a code point. -/
def encodeRune (r : ℕ) : Bytes :=
  if r < 0x80 then [r.toUInt8]
  else if r < 0x800 then [(0xc0 + r / 0x40).toUInt8, (0x80 + r % 0x40).toUInt8]
  else if r < 0x10000 then
    [(0xe0 + r / 0x1000).toUInt8, (0x80 + r / 0x40 % 0x40).toUInt8, (0x80 + r % 0x40).toUInt8]
  else
    [(0xf0 + r / 0x40000).toUInt8, (0x80 + r / 0x1000 % 0x40).toUInt8,
      (0x80 + r / 0x40 % 0x40).toUInt8, (0x80 + r % 0x40).toUInt8]

/-- U+FFFD, which stands for what cannot be decoded. -/
def replacement : ℕ := 0xfffd

/-! ## Encodings -/

/-- The valid encodings with their code points, one case for each number of bytes. -/
inductive Encoding : Bytes → ℕ → Prop where
  | one {c₀ : UInt8} (h₀ : c₀ < 0x80) : Encoding [c₀] c₀.toNat
  | two {c₀ c₁ : UInt8} (h₀ : within 0xc2 0xdf c₀ = true) (h₁ : second c₀ c₁ = true) :
      Encoding [c₀, c₁] (c₀.toNat % 0x20 * 0x40 + tail c₁)
  | three {c₀ c₁ c₂ : UInt8} (h₀ : within 0xe0 0xef c₀ = true) (h₁ : second c₀ c₁ = true)
      (h₂ : continues c₂ = true) :
      Encoding [c₀, c₁, c₂] (c₀.toNat % 0x10 * 0x1000 + tail c₁ * 0x40 + tail c₂)
  | four {c₀ c₁ c₂ c₃ : UInt8} (h₀ : within 0xf0 0xf4 c₀ = true) (h₁ : second c₀ c₁ = true)
      (h₂ : continues c₂ = true) (h₃ : continues c₃ = true) :
      Encoding [c₀, c₁, c₂, c₃]
        (c₀.toNat % 0x8 * 0x40000 + tail c₁ * 0x1000 + tail c₂ * 0x40 + tail c₃)

theorem within_iff {low high c : UInt8} :
    within low high c = true ↔ low.toNat ≤ c.toNat ∧ c.toNat ≤ high.toNat := by
  simp only [within, Bool.and_eq_true, decide_eq_true_eq, UInt8.le_iff_toNat_le]

theorem continues_iff {c : UInt8} : continues c = true ↔ 0x80 ≤ c.toNat ∧ c.toNat ≤ 0xbf :=
  within_iff

theorem le_of_within {low high c : UInt8} (h : within low high c = true) (hlow : 0x80 ≤ low) :
    0x80 ≤ c :=
  UInt8.le_trans hlow (UInt8.le_iff_toNat_le.mpr (within_iff.mp h).1)

/-- The ranges of the first byte are disjoint. -/
theorem not_within_of_within {low high low' high' c : UInt8} (h : within low high c = true)
    (hlt : high' < low) : ¬within low' high' c = true := by
  rw [within_iff] at h ⊢
  rw [UInt8.lt_iff_toNat_lt] at hlt
  omega

/-- Where the second byte of an encoding lies. -/
theorem second_iff {c₀ c₁ : UInt8} :
    second c₀ c₁ = true ↔
      0x80 ≤ c₁.toNat ∧ c₁.toNat ≤ 0xbf ∧ (c₀.toNat = 0xe0 → 0xa0 ≤ c₁.toNat) ∧
        (c₀.toNat = 0xf0 → 0x90 ≤ c₁.toNat) ∧ (c₀.toNat = 0xed → c₁.toNat ≤ 0x9f) ∧
        (c₀.toNat = 0xf4 → c₁.toNat ≤ 0x8f) := by
  have hne : ∀ {c : UInt8}, c₀ ≠ c → c₀.toNat ≠ c.toNat := fun h h' => h (UInt8.toNat_inj.mp h')
  simp only [second, within, Bool.and_eq_true, decide_eq_true_eq, UInt8.le_iff_toNat_le]
  by_cases h₁ : c₀ = 0xe0
  · subst h₁
    simp
    omega
  by_cases h₂ : c₀ = 0xf0
  · subst h₂
    simp
    omega
  by_cases h₃ : c₀ = 0xed
  · subst h₃
    simp
    omega
  by_cases h₄ : c₀ = 0xf4
  · subst h₄
    simp
    omega
  have h₁' : c₀.toNat ≠ 0xe0 := hne h₁
  have h₂' : c₀.toNat ≠ 0xf0 := hne h₂
  have h₃' : c₀.toNat ≠ 0xed := hne h₃
  have h₄' : c₀.toNat ≠ 0xf4 := hne h₄
  simp [h₁, h₂, h₃, h₄, h₁', h₂', h₃', h₄']

theorem le_of_continues {c : UInt8} (h : continues c = true) : 0x80 ≤ c :=
  le_of_within h (by decide)

theorem le_of_second {c₀ c₁ : UInt8} (h : second c₀ c₁ = true) : 0x80 ≤ c₁ :=
  UInt8.le_iff_toNat_le.mpr (second_iff.mp h).1

/-- An encoding is read from the front of any input. -/
theorem Encoding.decodeRune_append {e : Bytes} {r : ℕ} (h : Encoding e r) (t : Bytes) :
    decodeRune (e ++ t) = some (r, e.length) := by
  cases h with
  | one h₀ => simp [decodeRune, h₀]
  | two h₀ h₁ =>
      have hascii := UInt8.not_lt.mpr (le_of_within h₀ (by decide))
      simp [decodeRune, hascii, h₀, h₁]
  | three h₀ h₁ h₂ =>
      have hascii := UInt8.not_lt.mpr (le_of_within h₀ (by decide))
      have htwo : ¬within 0xc2 0xdf _ = true := not_within_of_within h₀ (by decide)
      simp [decodeRune, hascii, htwo, h₀, h₁, h₂]
  | four h₀ h₁ h₂ h₃ =>
      have hascii := UInt8.not_lt.mpr (le_of_within h₀ (by decide))
      have htwo : ¬within 0xc2 0xdf _ = true := not_within_of_within h₀ (by decide)
      have hthree : ¬within 0xe0 0xef _ = true := not_within_of_within h₀ (by decide)
      simp [decodeRune, hascii, htwo, hthree, h₀, h₁, h₂, h₃]

/-- What is read is an encoding at the front. -/
theorem encoding_of_decodeRune {b : Bytes} {r n : ℕ} (h : decodeRune b = some (r, n)) :
    ∃ e t, b = e ++ t ∧ n = e.length ∧ Encoding e r := by
  cases b with
  | nil => cases h
  | cons c₀ rest =>
  unfold decodeRune at h
  simp only at h
  -- the tests on the first byte, one for each length
  split_ifs at h with h₀ h₀ h₀ h₀
  · obtain ⟨rfl, rfl⟩ := Prod.mk.inj (Option.some.inj h)
    exact ⟨[c₀], rest, rfl, rfl, .one h₀⟩
  · split at h
    · next c₁ t =>
        obtain ⟨h₁, h⟩ := Option.ite_none_right_eq_some.mp h
        obtain ⟨rfl, rfl⟩ := Prod.mk.inj (Option.some.inj h)
        exact ⟨[c₀, c₁], t, rfl, rfl, .two h₀ h₁⟩
    · cases h
  · split at h
    · next c₁ c₂ t =>
        obtain ⟨h₁, h⟩ := Option.ite_none_right_eq_some.mp h
        obtain ⟨rfl, rfl⟩ := Prod.mk.inj (Option.some.inj h)
        rw [Bool.and_eq_true] at h₁
        exact ⟨[c₀, c₁, c₂], t, rfl, rfl, .three h₀ h₁.1 h₁.2⟩
    · cases h
  · split at h
    · next c₁ c₂ c₃ t =>
        obtain ⟨h₁, h⟩ := Option.ite_none_right_eq_some.mp h
        obtain ⟨rfl, rfl⟩ := Prod.mk.inj (Option.some.inj h)
        rw [Bool.and_eq_true, Bool.and_eq_true] at h₁
        exact ⟨[c₀, c₁, c₂, c₃], t, rfl, rfl, .four h₀ h₁.1.1 h₁.1.2 h₁.2⟩
    · cases h

/-- The bytes of a valid encoding that does not start in ASCII are all above ASCII. -/
theorem le_of_decodeRune {c₀ : UInt8} {rest : Bytes} {r n : ℕ} (hc₀ : 0x80 ≤ c₀)
    (h : decodeRune (c₀ :: rest) = some (r, n)) : ∀ c ∈ (c₀ :: rest).take n, 0x80 ≤ c := by
  obtain ⟨e, t, hb, rfl, he⟩ := encoding_of_decodeRune h
  rw [hb, List.take_left]
  cases he with
  | one h₀ =>
      cases hb
      exact absurd h₀ (UInt8.not_lt.mpr hc₀)
  | two h₀ h₁ => simp [le_of_within h₀, le_of_second h₁]
  | three h₀ h₁ h₂ => simp [le_of_within h₀, le_of_second h₁, le_of_continues h₂]
  | four h₀ h₁ h₂ h₃ =>
      simp [le_of_within h₀, le_of_second h₁, le_of_continues h₂, le_of_continues h₃]

theorem toUInt8_eq {n : ℕ} {c : UInt8} (h : n = c.toNat) : n.toUInt8 = c := by
  rw [h]
  exact UInt8.ofNat_toNat

/-- The encoding of a code point is the only one. -/
theorem Encoding.encodeRune_eq {e : Bytes} {r : ℕ} (h : Encoding e r) : encodeRune r = e := by
  cases h with
  | @one c₀ h₀ =>
      have h₀ : c₀.toNat < 0x80 := UInt8.lt_iff_toNat_lt.mp h₀
      rw [encodeRune, if_pos h₀, toUInt8_eq rfl]
  | @two c₀ c₁ h₀ h₁ =>
      have h₀ : 0xc2 ≤ c₀.toNat ∧ c₀.toNat ≤ 0xdf := within_iff.mp h₀
      have h₁ := second_iff.mp h₁
      rw [encodeRune, tail, if_neg (by omega), if_pos (by omega)]
      simp only [List.cons.injEq, and_true]
      exact ⟨toUInt8_eq (by omega), toUInt8_eq (by omega)⟩
  | @three c₀ c₁ c₂ h₀ h₁ h₂ =>
      have h₀ : 0xe0 ≤ c₀.toNat ∧ c₀.toNat ≤ 0xef := within_iff.mp h₀
      have h₁ := second_iff.mp h₁
      have h₂ := continues_iff.mp h₂
      rw [encodeRune, tail, tail, if_neg (by omega), if_neg (by omega), if_pos (by omega)]
      simp only [List.cons.injEq, and_true]
      exact ⟨toUInt8_eq (by omega), toUInt8_eq (by omega), toUInt8_eq (by omega)⟩
  | @four c₀ c₁ c₂ c₃ h₀ h₁ h₂ h₃ =>
      have h₀ : 0xf0 ≤ c₀.toNat ∧ c₀.toNat ≤ 0xf4 := within_iff.mp h₀
      have h₁ := second_iff.mp h₁
      have h₂ := continues_iff.mp h₂
      have h₃ := continues_iff.mp h₃
      rw [encodeRune, tail, tail, tail, if_neg (by omega), if_neg (by omega), if_neg (by omega)]
      simp only [List.cons.injEq, and_true]
      exact ⟨toUInt8_eq (by omega), toUInt8_eq (by omega), toUInt8_eq (by omega),
        toUInt8_eq (by omega)⟩

/-- The code point at the front is encoded by the bytes it was read from, and they alone decide what
is read. -/
theorem decodeRune_spec {b : Bytes} {r n : ℕ} (h : decodeRune b = some (r, n)) :
    0 < n ∧ n ≤ b.length ∧ encodeRune r = b.take n ∧
      ∀ t, decodeRune (b.take n ++ t) = some (r, n) := by
  obtain ⟨e, t, rfl, rfl, he⟩ := encoding_of_decodeRune h
  rw [List.take_left, List.length_append]
  refine ⟨?_, Nat.le_add_right .., he.encodeRune_eq, he.decodeRune_append⟩
  cases he <;> exact Nat.succ_pos _

/-- The code points that UTF-8 encodes: all but the surrogates. -/
def IsScalar (r : ℕ) : Prop := r < 0xd800 ∨ 0xe000 ≤ r ∧ r < 0x110000

theorem toNat_toUInt8 {n : ℕ} (h : n < 256) : n.toUInt8.toNat = n := by
  rw [Nat.toUInt8, UInt8.toNat_ofNat']
  omega

theorem continues_toUInt8 (n : ℕ) : continues (0x80 + n % 0x40).toUInt8 = true := by
  rw [continues_iff, toNat_toUInt8 (by omega)]
  omega

theorem tail_toUInt8 (n : ℕ) : tail (0x80 + n % 0x40).toUInt8 = n % 0x40 := by
  rw [tail, toNat_toUInt8 (by omega)]
  omega

theorem Encoding.congr {e : Bytes} {r r' : ℕ} (h : Encoding e r) (hr : r = r') : Encoding e r' :=
  hr ▸ h

/-- Every code point has an encoding. -/
theorem encoding_encodeRune {r : ℕ} (h : IsScalar r) : Encoding (encodeRune r) r := by
  rw [IsScalar] at h
  rw [encodeRune]
  split_ifs with h₁ h₂ h₃
  · have e₀ := toNat_toUInt8 (show r < 256 by omega)
    exact (Encoding.one (UInt8.lt_iff_toNat_lt.mpr (e₀.symm ▸ h₁))).congr e₀
  · have e₀ := toNat_toUInt8 (show 0xc0 + r / 0x40 < 256 by omega)
    have e₁ := toNat_toUInt8 (show 0x80 + r % 0x40 < 256 by omega)
    have h₀ : 0xc2 ≤ 0xc0 + r / 0x40 ∧ 0xc0 + r / 0x40 ≤ 0xdf := by omega
    refine (Encoding.two (within_iff.mpr (e₀.symm ▸ h₀)) (second_iff.mpr ?_)).congr ?_
    · rw [e₀, e₁]
      omega
    · rw [e₀, tail_toUInt8]
      omega
  · have e₀ := toNat_toUInt8 (show 0xe0 + r / 0x1000 < 256 by omega)
    have e₁ := toNat_toUInt8 (show 0x80 + r / 0x40 % 0x40 < 256 by omega)
    have h₀ : 0xe0 ≤ 0xe0 + r / 0x1000 ∧ 0xe0 + r / 0x1000 ≤ 0xef := by omega
    refine (Encoding.three (within_iff.mpr (e₀.symm ▸ h₀)) (second_iff.mpr ?_)
      (continues_toUInt8 r)).congr ?_
    · rw [e₀, e₁]
      omega
    · rw [e₀, tail_toUInt8, tail_toUInt8]
      omega
  · have e₀ := toNat_toUInt8 (show 0xf0 + r / 0x40000 < 256 by omega)
    have e₁ := toNat_toUInt8 (show 0x80 + r / 0x1000 % 0x40 < 256 by omega)
    have h₀ : 0xf0 ≤ 0xf0 + r / 0x40000 ∧ 0xf0 + r / 0x40000 ≤ 0xf4 := by omega
    refine (Encoding.four (within_iff.mpr (e₀.symm ▸ h₀)) (second_iff.mpr ?_)
      (continues_toUInt8 (r / 0x40)) (continues_toUInt8 r)).congr ?_
    · rw [e₀, e₁]
      omega
    · rw [e₀, tail_toUInt8, tail_toUInt8, tail_toUInt8]
      omega

/-- The encoding of a code point is read as that code point. -/
theorem decodeRune_encodeRune {r : ℕ} (h : IsScalar r) (t : Bytes) :
    decodeRune (encodeRune r ++ t) = some (r, (encodeRune r).length) :=
  (encoding_encodeRune h).decodeRune_append t

/-! ## Valid strings -/

/-- Whether the string is valid after skipping `n` bytes. -/
def validFrom : ℕ → Bytes → Bool
  | _, [] => true
  | n + 1, _ :: b => validFrom n b
  | 0, c :: b =>
    match decodeRune (c :: b) with
    | some (_, n) => validFrom (n - 1) b
    | none => false

/-- `utf8.Valid` -/
def valid (b : Bytes) : Bool := validFrom 0 b

theorem validFrom_eq_drop (n : ℕ) (b : Bytes) : validFrom n b = valid (b.drop n) := by
  induction b generalizing n with
  | nil =>
      rw [List.drop_nil]
      cases n <;> rfl
  | cons c b ih =>
      cases n with
      | zero => rfl
      | succ n => exact ih n

/-- A code point in front of a valid string. -/
theorem valid_of_decodeRune {b : Bytes} {r n : ℕ} (h : decodeRune b = some (r, n)) :
    valid b = valid (b.drop n) := by
  obtain ⟨hpos, -, -, -⟩ := decodeRune_spec h
  cases b with
  | nil => cases h
  | cons c b =>
      rw [valid, validFrom, h]
      simp only
      rw [validFrom_eq_drop]
      obtain ⟨m, rfl⟩ : ∃ m, n = m + 1 := ⟨n - 1, by omega⟩
      rfl

/-- A valid string is read code point by code point. -/
theorem valid_induction {P : Bytes → Prop} (hnil : P [])
    (hrune : ∀ b r n, decodeRune b = some (r, n) → P (b.drop n) → P b) {b : Bytes}
    (h : valid b = true) : P b := by
  induction hn : b.length using Nat.strongRecOn generalizing b with
  | ind m ih =>
    cases b with
    | nil => exact hnil
    | cons c b =>
        cases hdec : decodeRune (c :: b) with
        | none =>
            rw [valid, validFrom, hdec] at h
            cases h
        | some p =>
            obtain ⟨r, n⟩ := p
            obtain ⟨hpos, hle, -, -⟩ := decodeRune_spec hdec
            refine hrune _ r n hdec (ih _ ?_ (valid_of_decodeRune hdec ▸ h) rfl)
            rw [← hn, List.length_drop]
            omega

theorem valid_encodeRune_append {r : ℕ} (h : IsScalar r) {t : Bytes} (ht : valid t = true) :
    valid (encodeRune r ++ t) = true := by
  rw [valid_of_decodeRune (decodeRune_encodeRune h t), List.drop_left, ht]

theorem valid_cons_of_lt {c : UInt8} (h : c < 0x80) {t : Bytes} (ht : valid t = true) :
    valid (c :: t) = true := by
  have hdec : decodeRune (c :: t) = some (c.toNat, 1) := by simp [decodeRune, h]
  rw [valid_of_decodeRune hdec, List.drop_succ_cons, List.drop_zero, ht]

/-- ASCII is valid UTF-8. -/
theorem valid_of_forall_lt {b : Bytes} (h : ∀ c ∈ b, c < 0x80) : valid b = true := by
  induction b with
  | nil => rfl
  | cons c b ih =>
      rw [List.forall_mem_cons] at h
      exact valid_cons_of_lt h.1 (ih h.2)

/-! ## Trimming white space -/

/-- The code points for which Go's `unicode.IsSpace` holds. -/
def spaceRunes : List ℕ :=
  [0x09, 0x0a, 0x0b, 0x0c, 0x0d, 0x20, 0x85, 0xa0, 0x1680, 0x2000, 0x2001, 0x2002, 0x2003, 0x2004,
    0x2005, 0x2006, 0x2007, 0x2008, 0x2009, 0x200a, 0x2028, 0x2029, 0x202f, 0x205f, 0x3000]

/-- Drop encodings of the list from the front, at most as many as the fuel says. -/
def trimStart (encodings : List Bytes) : ℕ → Bytes → Bytes
  | 0, b => b
  | fuel + 1, b =>
    match encodings.find? fun e => e.isPrefixOf b with
    | some e => trimStart encodings fuel (b.drop e.length)
    | none => b

/-- The encodings of white space. -/
def spaces : List Bytes := spaceRunes.map encodeRune

/-- `bytes.TrimSpace` -/
def trimSpace (b : Bytes) : Bytes :=
  let b := trimStart spaces b.length b
  (trimStart (spaces.map List.reverse) b.length b.reverse).reverse

/-- Encodings of one byte in front of something that starts with none of them are dropped. -/
theorem trimStart_append {encodings : List Bytes} {w b : Bytes} {fuel : ℕ}
    (hw : ∀ c ∈ w, ∀ t, (encodings.find? fun e => e.isPrefixOf (c :: t)) = some [c])
    (hb : (encodings.find? fun e => e.isPrefixOf b) = none) (hfuel : w.length ≤ fuel) :
    trimStart encodings fuel (w ++ b) = b := by
  induction w generalizing fuel with
  | nil =>
      cases fuel with
      | zero => rfl
      | succ fuel => rw [List.nil_append, trimStart, hb]
  | cons c w ih =>
      cases fuel with
      | zero => simp at hfuel
      | succ fuel =>
          rw [List.cons_append, trimStart, hw c List.mem_cons_self]
          exact ih (fun d hd => hw d (List.mem_cons_of_mem c hd)) (by simpa using hfuel)

theorem trimStart_suffix (encodings : List Bytes) (fuel : ℕ) (b : Bytes) :
    trimStart encodings fuel b <:+ b := by
  induction fuel generalizing b with
  | zero => exact List.suffix_rfl
  | succ fuel ih =>
      rw [trimStart]
      split
      · exact (ih _).trans (List.drop_suffix _ b)
      · exact List.suffix_rfl

/-- No encoding of white space starts or ends with a visible ASCII character. -/
theorem find_visible {c : UInt8} (hlow : 0x21 ≤ c) (hhigh : c < 0x80) (b : Bytes) :
    (spaces.find? fun e => e.isPrefixOf (c :: b)) = none ∧
      ((spaces.map List.reverse).find? fun e => e.isPrefixOf (c :: b)) = none := by
  have hfirst : ∀ es : List Bytes, (∀ e ∈ es, ∃ d ∈ e.head?, d < 0x21 ∨ 0x80 ≤ d) →
      (es.find? fun e => e.isPrefixOf (c :: b)) = none := by
    intro es hes
    rw [List.find?_eq_none]
    intro e he hprefix
    obtain ⟨d, hd, hrange⟩ := hes e he
    cases e with
    | nil => cases hd
    | cons d' e =>
        cases hd
        rw [(List.cons_prefix_cons.mp (List.isPrefixOf_iff_prefix.mp hprefix)).1] at hrange
        rcases hrange with hrange | hrange
        · exact absurd hlow (UInt8.not_le.mpr hrange)
        · exact absurd hhigh (UInt8.not_lt.mpr hrange)
  exact ⟨hfirst _ (by decide), hfirst _ (by decide)⟩

/-- A string that starts and ends with a visible ASCII character is trimmed already. -/
theorem trimSpace_visible {c d : UInt8} (hc : 0x21 ≤ c ∧ c < 0x80) (hd : 0x21 ≤ d ∧ d < 0x80)
    (b : Bytes) : trimSpace (c :: (b ++ [d])) = c :: (b ++ [d]) := by
  have hstart := trimStart_append (w := []) (b := c :: (b ++ [d])) (by simp)
    (find_visible hc.1 hc.2 _).1 (Nat.zero_le (c :: (b ++ [d])).length)
  have hend := trimStart_append (w := []) (b := d :: (b.reverse ++ [c])) (by simp)
    (find_visible hd.1 hd.2 _).2 (Nat.zero_le (c :: (b ++ [d])).length)
  rw [List.nil_append] at hstart hend
  have hrev : (c :: (b ++ [d])).reverse = d :: (b.reverse ++ [c]) := by simp
  simp only [trimSpace]
  rw [hstart, hrev, hend, ← hrev, List.reverse_reverse]

/-! ## Ranging over a string -/

/-- The code points of a string after skipping `n` bytes. -/
def runesFrom : ℕ → Bytes → List ℕ
  | _, [] => []
  | n + 1, _ :: b => runesFrom n b
  | 0, c :: b =>
    match decodeRune (c :: b) with
    | some (r, n) => r :: runesFrom (n - 1) b
    | none => replacement :: runesFrom 0 b

/-- The code points that `range` yields: a byte that starts no encoding yields U+FFFD. -/
def runes (b : Bytes) : List ℕ := runesFrom 0 b

theorem runes_cons_of_lt {c : UInt8} (h : c < 0x80) (b : Bytes) :
    runes (c :: b) = c.toNat :: runes b := by
  have hdec : decodeRune (c :: b) = some (c.toNat, 1) := by simp [decodeRune, h]
  rw [runes, runesFrom, hdec]
  rfl

/-- A byte above ASCII yields a code point above ASCII. -/
theorem exists_rune_of_le {c : UInt8} (h : 0x80 ≤ c) (b : Bytes) :
    ∃ r ∈ runes (c :: b), 0x80 ≤ r := by
  rw [runes, runesFrom]
  cases hdec : decodeRune (c :: b) with
  | none => exact ⟨replacement, List.mem_cons_self, by decide⟩
  | some p =>
      obtain ⟨r, n⟩ := p
      refine ⟨r, List.mem_cons_self, Nat.not_lt.mp fun hr => ?_⟩
      obtain ⟨hpos, -, hencode, -⟩ := decodeRune_spec hdec
      obtain ⟨m, rfl⟩ : ∃ m, n = m + 1 := ⟨n - 1, by omega⟩
      rw [encodeRune, if_pos hr, List.take_succ_cons, List.cons.injEq] at hencode
      rw [← hencode.1, UInt8.le_iff_toNat_le, toNat_toUInt8 (by omega)] at h
      exact absurd hr (Nat.not_lt.mpr h)

/-- A string that yields only ASCII is ASCII. -/
theorem lt_of_runes_lt {b : Bytes} (h : ∀ r ∈ runes b, r < 0x80) : ∀ c ∈ b, c < 0x80 := by
  induction b with
  | nil => simp
  | cons c b ih =>
      have hc : c < 0x80 := UInt8.not_le.mp fun hc => by
        obtain ⟨r, hr, hle⟩ := exists_rune_of_le hc b
        exact absurd (h r hr) (Nat.not_lt.mpr hle)
      rw [runes_cons_of_lt hc, List.forall_mem_cons] at h
      exact List.forall_mem_cons.mpr ⟨hc, ih h.2⟩

/-- An ASCII string yields its bytes. -/
theorem runes_of_lt {b : Bytes} (h : ∀ c ∈ b, c < 0x80) : runes b = b.map UInt8.toNat := by
  induction b with
  | nil => rfl
  | cons c b ih =>
      rw [List.forall_mem_cons] at h
      rw [runes_cons_of_lt h.1, List.map_cons, ih h.2]

end Utf8
