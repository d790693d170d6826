import Sanad.Common.Base64Url
import Sanad.Common.Except
import Sanad.Common.Json.Fields
import Sanad.Common.Rfc3339

/-! # Slices, byte strings and times

How `encoding/json` writes and reads a Go slice, a `[]byte` and a `time.Time`. An array that is decoded
into a slice goes into the elements that lie behind it already, one by one, and what an element does
not mention it keeps from before; so a member that comes twice is merged with its first value, also
past the end of a shorter one.

A value goes into a header as the base64 of its text.
-/

namespace Json

/-! ## Slices -/

/-- A slice: its elements are the first of those that lie behind it. -/
structure Slice (α : Type) where
  behind : List α
  len : ℕ

namespace Slice

variable {α : Type}

/-- The nil slice. -/
def nil : Slice α := ⟨[], 0⟩

def toList (s : Slice α) : List α := s.behind.take s.len

/-- A slice with nothing behind its elements. -/
def ofList (s : List α) : Slice α := ⟨s, s.length⟩

theorem toList_ofList (s : List α) : (ofList s).toList = s := List.take_length

end Slice

section

variable {α β : Type} (decode : α → Json → Option α) (zero : α)

/-- Decode values into the elements, and into new ones where these end. -/
def decodeElems : List α → List Json → Option (List α)
  | behind, [] => some behind
  | [], v :: vs => do
    let a ← decode zero v
    let rest ← decodeElems [] vs
    some (a :: rest)
  | old :: behind, v :: vs => do
    let a ← decode old v
    let rest ← decodeElems behind vs
    some (a :: rest)

/-- A value decoded into a slice that holds `old`. -/
def decodeSlice (old : Slice α) : Json → Option (Slice α)
  | .null => some .nil
  | .array [] => some .nil
  | .array vs => (decodeElems decode zero old.behind vs).map fun behind => ⟨behind, vs.length⟩
  | _ => none

/-- A nil slice is written as `null`. -/
def ofSlice (write : β → Json) (s : List β) : Json :=
  if s.length = 0 then .null else .array (s.map write)

end

section

variable {α β : Type} {decode : α → Json → Option α} {zero : α} {write : β → Json} {read : β → α}

theorem decodeElems_nil_map {s : List β} (h : ∀ x ∈ s, decode zero (write x) = some (read x)) :
    decodeElems decode zero [] (s.map write) = some (s.map read) := by
  induction s with
  | nil => rfl
  | cons x s ih =>
      rw [List.forall_mem_cons] at h
      rw [List.map_cons, decodeElems, h.1, ih h.2]
      rfl

/-- The elements of a slice come back as each of them does. -/
theorem decodeSlice_ofSlice {s : List β} (h : ∀ x ∈ s, decode zero (write x) = some (read x)) :
    decodeSlice decode zero .nil (ofSlice write s) = some (.ofList (s.map read)) := by
  cases s with
  | nil => rfl
  | cons x s =>
      have hne : (x :: s).length ≠ 0 := by simp
      rw [ofSlice, if_neg hne, List.map_cons, decodeSlice]
      · show (decodeElems decode zero [] ((x :: s).map write)).map _ = _
        rw [decodeElems_nil_map h]
        simp [Slice.ofList]
      · simp

theorem depth_ofSlice_le {n : ℕ} {s : List β} (h : ∀ x ∈ s, (write x).depth ≤ n) :
    (ofSlice write s).depth ≤ n + 1 := by
  rw [ofSlice]
  split
  · exact Nat.zero_le _
  · refine depth_array_le fun v hv => ?_
    obtain ⟨x, hx, rfl⟩ := List.mem_map.mp hv
    exact h x hx

end

/-! ## Byte strings -/

/-- A number decoded into a byte. -/
def decodeByte (old : UInt8) : Json → Option UInt8
  | .null => some old
  | .number lit =>
    (parseInt64 lit.bytes).bind fun z => if 0 ≤ z ∧ z < 256 then some z.toNat.toUInt8 else none
  | _ => none

/-- A value decoded into a `[]byte`: a string is in base64, and an array has a number for each byte. -/
def decodeBytes (old : Slice UInt8) : Json → Option (Slice UInt8)
  | .string lit => (Base64.decode (unquote lit)).map .ofList
  | v => decodeSlice decodeByte 0 old v

/-- A `[]byte`, which is written in base64. A nil one is `null`. -/
def ofByteSlice (b : Bytes) : Json := if b.length = 0 then .null else .ofBytes b

/-- A string without escapes stands for itself if it is ASCII. -/
theorem unquote_verbatim {s : Bytes} (h : ∀ c ∈ s, 0x20 ≤ c ∧ c ≠ quoteMark ∧ c ≠ backslash)
    (hascii : ∀ c ∈ s, c < 0x80) : unquote (verbatim s h) = s := by
  show Bytes.rewrite unquoteRune s = s
  induction s with
  | nil => rfl
  | cons c s ih =>
      rw [List.forall_mem_cons] at h hascii
      have hrune : unquoteRune (c :: s) = ([c], 1) := by
        simp [unquoteRune, h.1.2.2, hascii.1]
      rw [Bytes.rewrite_cons, hrune]
      exact congrArg (List.cons c) (ih h.2 hascii.2)

theorem decodeBytes_ofByteSlice (b : Bytes) :
    decodeBytes .nil (ofByteSlice b) = some (.ofList b) := by
  rw [ofByteSlice]
  split
  · next hempty =>
      rw [List.length_eq_zero_iff.mp hempty]
      rfl
  · have hascii : ∀ c ∈ Base64.encode b, c < 0x80 := by
      have halphabet : ∀ c ∈ Base64.alphabet, c < 0x80 := by decide +kernel
      intro c hc
      rcases Base64.encode_mem b c hc with hc | rfl
      · exact halphabet c hc
      · decide
    rw [ofBytes, decodeBytes, unquote_verbatim _ hascii, Base64.decode_encode]
    rfl

theorem depth_ofByteSlice (b : Bytes) : (ofByteSlice b).depth = 0 := by
  rw [ofByteSlice]
  split <;> rfl

/-! ## Times -/

/-- A `time.Time` in a zone with the given offset, if it can be written. -/
def ofTime (t offset : ℤ) : Option Json := (Rfc3339.marshal t offset).map .ofString

/-- A value decoded into a `time.Time` that holds `old`. The text is taken as it is written, escapes and
all. -/
def decodeTime (old : ℤ) : Json → Option ℤ
  | .null => some old
  | .string lit => Rfc3339.parse lit.bytes
  | _ => none

end Json

namespace Rfc3339

/-- The characters of a timestamp: digits and six others. -/
def isTimeChar (c : UInt8) : Bool :=
  Json.isDigit c || c ∈ [dash, plus, colon, fullStop, letterT, letterZ]

theorem isTimeChar_fixed (w n : ℕ) : ∀ c ∈ fixed w n, isTimeChar c = true := by
  induction w generalizing n with
  | zero => simp [fixed]
  | succ w ih =>
      rw [fixed, List.forall_mem_append, List.forall_mem_singleton]
      refine ⟨ih _, ?_⟩
      rw [isTimeChar, Json.isDigit_decimalDigit (show n % 10 < 10 by omega), Bool.true_or]

theorem isTimeChar_writeFraction {n : ℕ} (h : n < 1000000000) :
    ∀ c ∈ writeFraction n, isTimeChar c = true := by
  rw [writeFraction]
  split
  · simp
  · refine List.forall_mem_cons.mpr ⟨by decide, fun c hc => ?_⟩
    rw [isTimeChar, isDigit_trimmed (w := 9) h c hc, Bool.true_or]

theorem isTimeChar_writeZone (offset : ℤ) : ∀ c ∈ writeZone offset, isTimeChar c = true := by
  rw [writeZone]
  split
  · exact List.forall_mem_singleton.mpr (by decide)
  · refine List.forall_mem_cons.mpr ⟨by split <;> decide, ?_⟩
    rw [List.forall_mem_append, List.forall_mem_cons]
    exact ⟨isTimeChar_fixed _ _, by decide, isTimeChar_fixed _ _⟩

theorem isTimeChar_marshal {t offset : ℤ} {b : Bytes} (h : marshal t offset = some b) :
    ∀ c ∈ b, isTimeChar c = true := by
  rw [marshal] at h
  split at h
  · obtain rfl := Option.some.inj h
    simp only [Stamp.write, List.forall_mem_append, List.forall_mem_cons]
    exact ⟨⟨isTimeChar_fixed _ _, by decide, isTimeChar_fixed _ _, by decide, isTimeChar_fixed _ _,
      by decide, isTimeChar_fixed _ _, by decide, isTimeChar_fixed _ _, by decide,
      isTimeChar_fixed _ _, isTimeChar_writeFraction (Stamp.nano_lt _)⟩, isTimeChar_writeZone offset⟩
  · cases h

end Rfc3339

namespace Json

/-- The characters of a timestamp are written as they are. -/
theorem bytes_quote_of_isTimeChar {s : Bytes} (h : ∀ c ∈ s, Rfc3339.isTimeChar c = true) :
    (quote s).bytes = s := by
  have hrune : ∀ n < 256, Rfc3339.isTimeChar (UInt8.ofNat n) = true →
      UInt8.ofNat n < 0x80 ∧ escapeAscii (UInt8.ofNat n) = [UInt8.ofNat n] := by decide +kernel
  show Bytes.rewrite quoteRune s = s
  induction s with
  | nil => rfl
  | cons c s ih =>
      rw [List.forall_mem_cons] at h
      obtain ⟨hascii, hescape⟩ := hrune c.toNat c.toNat_lt (by rw [UInt8.ofNat_toNat]; exact h.1)
      rw [UInt8.ofNat_toNat] at hascii hescape
      rw [Bytes.rewrite_cons, quoteRune, if_pos hascii, hescape]
      exact congrArg (List.cons c) (ih h.2)

/-- A time comes back from its text, up to the seconds of the zone that the text does not show. -/
theorem decodeTime_ofTime {t offset : ℤ} {v : Json} (h : ofTime t offset = some v) (old : ℤ) :
    decodeTime old v = some (t + (offset - offset.tdiv 60 * 60) * 1000000000) := by
  obtain ⟨b, hb, rfl⟩ := Option.map_eq_some_iff.mp h
  rw [ofString, decodeTime, bytes_quote_of_isTimeChar (Rfc3339.isTimeChar_marshal hb)]
  exact Rfc3339.parse_marshal hb

theorem depth_ofTime {t offset : ℤ} {v : Json} (h : ofTime t offset = some v) : v.depth = 0 := by
  obtain ⟨b, -, rfl⟩ := Option.map_eq_some_iff.mp h
  rfl

/-! ## What decoding keeps -/

section

variable {ι α : Type} {I : α → Prop}

/-- What every field keeps, a record keeps. -/
theorem decodeRecord_keeps {fields : List (Bytes × ι)} {store : ι → Json → α → Option α}
    (hstore : ∀ f v r r', store f v r = some r' → I r → I r') {zero r : α} {v : Json}
    (h : decodeRecord fields store zero v = some r) (hzero : I zero) : I r := by
  cases v with
  | object ms =>
      rw [decodeRecord] at h
      induction ms generalizing zero with
      | nil =>
          cases h
          exact hzero
      | cons m ms ih =>
          rw [List.foldlM_cons] at h
          obtain ⟨r₁, hr₁, hrest⟩ := Option.bind_eq_some_iff.mp h
          refine ih ?_ hrest
          cases hf : fieldOf fields (unquote m.1) with
          | some f =>
              rw [hf] at hr₁
              exact hstore f m.2 zero r₁ hr₁ hzero
          | none =>
              rw [hf] at hr₁
              cases hr₁
              exact hzero
  | null =>
      cases h
      exact hzero
  | _ => cases h

variable {decode : α → Json → Option α} {zero : α}

theorem decodeElems_keeps (hdecode : ∀ old v a, decode old v = some a → I old → I a) (hzero : I zero)
    {behind out : List α} {vs : List Json} (h : decodeElems decode zero behind vs = some out)
    (hbehind : ∀ a ∈ behind, I a) : ∀ a ∈ out, I a := by
  induction behind, vs using decodeElems.induct generalizing out with
  | case1 behind =>
      cases h
      exact hbehind
  | case2 v vs ih =>
      simp only [decodeElems, Option.bind_eq_bind, Option.bind_eq_some_iff, Option.some.injEq] at h
      obtain ⟨a, ha, rest, hrest, rfl⟩ := h
      exact List.forall_mem_cons.mpr ⟨hdecode zero v a ha hzero, ih hrest hbehind⟩
  | case3 old behind v vs ih =>
      simp only [decodeElems, Option.bind_eq_bind, Option.bind_eq_some_iff, Option.some.injEq] at h
      obtain ⟨a, ha, rest, hrest, rfl⟩ := h
      rw [List.forall_mem_cons] at hbehind
      exact List.forall_mem_cons.mpr ⟨hdecode old v a ha hbehind.1, ih hrest hbehind.2⟩

/-- What its elements keep, a slice keeps, also behind its end. -/
theorem decodeSlice_keeps (hdecode : ∀ old v a, decode old v = some a → I old → I a) (hzero : I zero)
    {s s' : Slice α} {v : Json} (h : decodeSlice decode zero s v = some s')
    (hs : ∀ a ∈ s.behind, I a) : ∀ a ∈ s'.behind, I a := by
  rw [decodeSlice.eq_def] at h
  split at h
  · cases h
    exact fun a ha => absurd ha List.not_mem_nil
  · cases h
    exact fun a ha => absurd ha List.not_mem_nil
  · obtain ⟨behind, hbehind, rfl⟩ := Option.map_eq_some_iff.mp h
    exact decodeElems_keeps hdecode hzero hbehind hs
  · cases h

theorem decodePointer_keeps (hdecode : ∀ old v a, decode old v = some a → I old → I a) (hzero : I zero)
    {p p' : Option α} {v : Json} (h : decodePointer decode zero p v = some p') (hp : ∀ a ∈ p, I a) :
    ∀ a ∈ p', I a := by
  have hold : I (p.getD zero) := by
    cases p with
    | none => exact hzero
    | some a => exact hp a rfl
  rw [decodePointer.eq_def] at h
  split at h
  · cases h
    exact fun a ha => absurd ha (Option.not_mem_none a)
  · obtain ⟨a, ha, rfl⟩ := Option.map_eq_some_iff.mp h
    rintro a' ⟨⟩
    exact hdecode _ _ _ ha hold

end

theorem valid_of_decodeText (old : Bytes) (v : Json) (s : Bytes) (h : decodeText old v = some s)
    (hold : Utf8.valid old = true) : Utf8.valid s = true := by
  cases v with
  | null =>
      cases h
      exact hold
  | string lit =>
      cases h
      exact valid_unquote lit
  | _ => cases h

theorem int64_of_decodeInt64 {old z : ℤ} {v : Json} (h : decodeInt64 old v = some z)
    (hold : -9223372036854775808 ≤ old ∧ old ≤ 9223372036854775807) :
    -9223372036854775808 ≤ z ∧ z ≤ 9223372036854775807 := by
  cases v with
  | null =>
      cases h
      exact hold
  | number lit =>
      simp only [decodeInt64, parseInt64, Option.ite_none_right_eq_some, Option.some.injEq] at h
      obtain ⟨⟨-, hrange⟩, rfl⟩ := h
      exact hrange
  | _ => cases h

/-! ## Header values -/

/-- The base64 of the text of a value. -/
def toHeader (v : Json) : Bytes := Base64Url.encode (render v)

/-- The value in a header, decoded into a Go value, with the errors for a text that is not base64 and
for one that is not such a value. -/
def ofHeader {ε α : Type} (badEncoding badValue : ε) (decode : Json → Option α) (s : Bytes) :
    Except ε α := do
  let b ← Except.ofOption (Base64Url.decode s) badEncoding
  Except.ofOption ((unmarshal b).bind decode) badValue

theorem ofHeader_toHeader {ε α : Type} {badEncoding badValue : ε} {decode : Json → Option α} {v : Json}
    {a : α} (hdepth : v.depth ≤ maxNestingDepth) (h : decode v = some a) :
    ofHeader badEncoding badValue decode (toHeader v) = .ok a := by
  rw [ofHeader, toHeader, Base64Url.decode_encode, Except.bind_eq_ok_iff]
  refine ⟨render v, rfl, ?_⟩
  rw [unmarshal_render hdepth, Option.bind_some, h]
  rfl

theorem exists_of_ofHeader {ε α : Type} {badEncoding badValue : ε} {decode : Json → Option α}
    {s : Bytes} {a : α} (h : ofHeader badEncoding badValue decode s = .ok a) :
    ∃ v, decode v = some a := by
  simp only [ofHeader, Except.bind_eq_ok_iff, Except.ofOption_eq_ok_iff] at h
  obtain ⟨b, -, hdecode⟩ := h
  obtain ⟨v, -, hv⟩ := Option.bind_eq_some_iff.mp hdecode
  exact ⟨v, hv⟩

end Json
