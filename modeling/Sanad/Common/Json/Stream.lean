import Sanad.Common.Json.Decode

/-! # Reading a stream of values

What a `json.Decoder` reads off the front of its input, and what its `More` says about the rest. The
value that is read has a text at the front of the input, since the parser accepts nothing else
(`readsTexts`); what stands after an object does not matter for reading it (`parseValue_object`).
-/

namespace Lexer

variable {σ : Type} {L : Lexer σ}

/-- A token that is read stands at the front of the input. -/
theorem eq_of_scan {s : σ} {b rest : Bytes} {t : L.Token s} (h : L.scan s b = some (t, rest)) :
    b = t.bytes ++ rest := by
  induction b generalizing s rest with
  | nil =>
      rw [scan] at h
      split at h
      · cases h
        rfl
      · cases h
  | cons c b ih =>
      rw [scan] at h
      split at h
      · next s' hstep =>
          obtain ⟨⟨t', rest'⟩, hscan, heq⟩ := Option.map_eq_some_iff.mp h
          cases heq
          rw [ih hscan]
          rfl
      · split at h
        · cases h
          rfl
        · cases h

end Lexer

namespace Json

/-! ## Soundness of the parser -/

theorem eq_of_expect {l b rest : Bytes} (h : expect l b = some rest) : b = l ++ rest := by
  rw [expect] at h
  split at h
  · next hpre =>
      cases h
      exact (List.prefix_iff_eq_append.mp hpre).symm
  · cases h

theorem exists_skipSpace (b : Bytes) : ∃ w, IsSpaces w ∧ b = w ++ skipSpace b := by
  induction b with
  | nil => exact ⟨[], isSpaces_nil, rfl⟩
  | cons c b ih =>
      rw [skipSpace]
      split
      · next hc =>
          obtain ⟨w, hw, hb⟩ := ih
          exact ⟨c :: w, List.forall_mem_cons.mpr ⟨hc, hw⟩, congrArg (c :: ·) hb⟩
      · exact ⟨[], isSpaces_nil, rfl⟩

theorem skipSpace_eq_nil_iff {b : Bytes} : skipSpace b = [] ↔ IsSpaces b := by
  constructor
  · intro h
    obtain ⟨w, hw, hb⟩ := exists_skipSpace b
    rw [h, List.append_nil] at hb
    rwa [hb]
  · intro h
    have := skipSpace_append h []
    rwa [List.append_nil] at this

/-- A token that is expected after white space. -/
theorem eq_of_expect_skipSpace {l b rest : Bytes} (h : expect l (skipSpace b) = some rest) :
    ∃ w, IsSpaces w ∧ b = w ++ (l ++ rest) := by
  obtain ⟨w, hw, hb⟩ := exists_skipSpace b
  rw [eq_of_expect h] at hb
  exact ⟨w, hw, hb⟩

theorem eq_of_parseString {b rest : Bytes} {lit : StringLit}
    (h : parseString b = some (lit, rest)) : b = lit.bytes ++ quoteMark :: rest := by
  simp only [parseString, Option.bind_eq_bind, Option.bind_eq_some_iff] at h
  obtain ⟨⟨lit', rest₁⟩, hscan, rest₂, hquote, heq⟩ := h
  cases heq
  exact (Lexer.eq_of_scan hscan).trans (congrArg (lit'.bytes ++ ·) (eq_of_expect hquote))

theorem eq_of_parseKey {b rest : Bytes} {k : StringLit} (h : parseKey b = some (k, rest)) :
    ∃ w₁ w₂, IsSpaces w₁ ∧ IsSpaces w₂ ∧ b = w₁ ++ (quoted k ++ (w₂ ++ colon :: rest)) := by
  simp only [parseKey, Option.bind_eq_bind, Option.bind_eq_some_iff] at h
  obtain ⟨b₁, hquote, ⟨k', b₂⟩, hstring, b₃, hcolon, heq⟩ := h
  cases heq
  obtain ⟨w₁, hw₁, rfl⟩ := eq_of_expect_skipSpace hquote
  obtain ⟨w₂, hw₂, rfl⟩ := eq_of_expect_skipSpace hcolon
  refine ⟨w₁, w₂, hw₁, hw₂, ?_⟩
  rw [eq_of_parseString hstring]
  simp [quoted]

/-- With the given fuel, every part of the parser reads a text of what it returns. -/
structure ReadsTexts (fuel : ℕ) : Prop where
  value : ∀ {b rest v}, parseValue fuel b = some (v, rest) → ∃ t, b = t ++ rest ∧ Text v t
  elems : ∀ {b rest vs}, parseElems fuel b = some (vs, rest) →
    ∃ t, b = t ++ closeBracket :: rest ∧ ElemsText vs t
  elems₁ : ∀ {b rest vs}, parseElems₁ fuel b = some (vs, rest) →
    vs ≠ [] ∧ ∃ t, b = t ++ closeBracket :: rest ∧ ElemsText vs t
  members : ∀ {b rest ms}, parseMembers fuel b = some (ms, rest) →
    ∃ t, b = t ++ closeBrace :: rest ∧ MembersText ms t
  members₁ : ∀ {b rest ms}, parseMembers₁ fuel b = some (ms, rest) →
    ms ≠ [] ∧ ∃ t, b = t ++ closeBrace :: rest ∧ MembersText ms t

section

variable {fuel : ℕ} {b rest : Bytes}

theorem text_of_parseValue {v : Json} (ih : ReadsTexts fuel)
    (h : parseValue (fuel + 1) b = some (v, rest)) : ∃ t, b = t ++ rest ∧ Text v t := by
  cases b with
  | nil => cases h
  | cons c b =>
      rw [parseValue] at h
      -- the first byte tells an object, an array, a string and the three words; the rest are numbers
      split at h
      · next hc =>
          obtain ⟨⟨ms, rest'⟩, hms, heq⟩ := Option.map_eq_some_iff.mp h
          cases heq
          obtain ⟨t, rfl, ht⟩ := ih.members hms
          exact ⟨openBrace :: (t ++ [closeBrace]), by simp [hc], by rw [Text]; exact ⟨t, rfl, ht⟩⟩
      split at h
      · next hc =>
          obtain ⟨⟨vs, rest'⟩, hvs, heq⟩ := Option.map_eq_some_iff.mp h
          cases heq
          obtain ⟨t, rfl, ht⟩ := ih.elems hvs
          exact ⟨openBracket :: (t ++ [closeBracket]), by simp [hc], by rw [Text]; exact ⟨t, rfl, ht⟩⟩
      split at h
      · next hc =>
          obtain ⟨⟨lit, rest'⟩, hlit, heq⟩ := Option.map_eq_some_iff.mp h
          cases heq
          rw [eq_of_parseString hlit]
          exact ⟨quoted lit, by simp [hc, quoted], by rw [Text]⟩
      split at h
      · obtain ⟨rest', htrue, heq⟩ := Option.map_eq_some_iff.mp h
        cases heq
        exact ⟨boolText true, eq_of_expect htrue, by rw [Text]⟩
      split at h
      · obtain ⟨rest', hfalse, heq⟩ := Option.map_eq_some_iff.mp h
        cases heq
        exact ⟨boolText false, eq_of_expect hfalse, by rw [Text]⟩
      split at h
      · obtain ⟨rest', hnull, heq⟩ := Option.map_eq_some_iff.mp h
        cases heq
        exact ⟨Bytes.ascii "null", eq_of_expect hnull, by rw [Text]⟩
      · obtain ⟨⟨lit, rest'⟩, hlit, heq⟩ := Option.map_eq_some_iff.mp h
        cases heq
        exact ⟨lit.bytes, Lexer.eq_of_scan hlit, by rw [Text]⟩

theorem text_of_parseElems₁ {vs : List Json} (ih : ReadsTexts fuel)
    (h : parseElems₁ (fuel + 1) b = some (vs, rest)) :
    vs ≠ [] ∧ ∃ t, b = t ++ closeBracket :: rest ∧ ElemsText vs t := by
  rw [parseElems₁] at h
  obtain ⟨⟨v, b₁⟩, hv, h⟩ := Option.bind_eq_some_iff.mp h
  obtain ⟨w₁, hw₁, hb⟩ := exists_skipSpace b
  obtain ⟨t₁, ht₁, htext⟩ := ih.value hv
  dsimp only at h
  split at h
  · next b₂ hcomma =>
      obtain ⟨⟨vs', rest'⟩, hvs, heq⟩ := Option.map_eq_some_iff.mp h
      cases heq
      obtain ⟨hne, t₂, rfl, ht₂⟩ := ih.elems₁ hvs
      obtain ⟨w₂, hw₂, rfl⟩ := eq_of_expect_skipSpace hcomma
      refine ⟨List.cons_ne_nil _ _, w₁ ++ (t₁ ++ (w₂ ++ comma :: t₂)), ?_, ?_⟩
      · rw [hb, ht₁]
        simp
      · rw [ElemsText]
        exact ⟨w₁, t₁, w₂, hw₁, htext, hw₂, .inr ⟨hne, t₂, rfl, ht₂⟩⟩
  · obtain ⟨rest', hclose, heq⟩ := Option.map_eq_some_iff.mp h
    cases heq
    obtain ⟨w₂, hw₂, rfl⟩ := eq_of_expect_skipSpace hclose
    refine ⟨List.cons_ne_nil _ _, w₁ ++ (t₁ ++ w₂), ?_, ?_⟩
    · rw [hb, ht₁]
      simp
    · rw [ElemsText]
      exact ⟨w₁, t₁, w₂, hw₁, htext, hw₂, .inl ⟨rfl, rfl⟩⟩

theorem text_of_parseMembers₁ {ms : List (StringLit × Json)} (ih : ReadsTexts fuel)
    (h : parseMembers₁ (fuel + 1) b = some (ms, rest)) :
    ms ≠ [] ∧ ∃ t, b = t ++ closeBrace :: rest ∧ MembersText ms t := by
  rw [parseMembers₁] at h
  obtain ⟨⟨k, b₁⟩, hk, h⟩ := Option.bind_eq_some_iff.mp h
  obtain ⟨⟨v, b₂⟩, hv, h⟩ := Option.bind_eq_some_iff.mp h
  obtain ⟨w₁, w₂, hw₁, hw₂, hb⟩ := eq_of_parseKey hk
  obtain ⟨w₃, hw₃, hb₁⟩ := exists_skipSpace b₁
  obtain ⟨t₁, ht₁, htext⟩ := ih.value hv
  dsimp only at h
  split at h
  · next b₃ hcomma =>
      obtain ⟨⟨ms', rest'⟩, hms, heq⟩ := Option.map_eq_some_iff.mp h
      cases heq
      obtain ⟨hne, t₂, rfl, ht₂⟩ := ih.members₁ hms
      obtain ⟨w₄, hw₄, rfl⟩ := eq_of_expect_skipSpace hcomma
      refine ⟨List.cons_ne_nil _ _,
        w₁ ++ (quoted k ++ (w₂ ++ colon :: (w₃ ++ (t₁ ++ (w₄ ++ comma :: t₂))))), ?_, ?_⟩
      · rw [hb, hb₁, ht₁]
        simp
      · rw [MembersText]
        exact ⟨w₁, w₂, w₃, t₁, w₄, hw₁, hw₂, hw₃, htext, hw₄, .inr ⟨hne, t₂, rfl, ht₂⟩⟩
  · obtain ⟨rest', hclose, heq⟩ := Option.map_eq_some_iff.mp h
    cases heq
    obtain ⟨w₄, hw₄, rfl⟩ := eq_of_expect_skipSpace hclose
    refine ⟨List.cons_ne_nil _ _, w₁ ++ (quoted k ++ (w₂ ++ colon :: (w₃ ++ (t₁ ++ w₄)))), ?_, ?_⟩
    · rw [hb, hb₁, ht₁]
      simp
    · rw [MembersText]
      exact ⟨w₁, w₂, w₃, t₁, w₄, hw₁, hw₂, hw₃, htext, hw₄, .inl ⟨rfl, rfl⟩⟩

end

theorem readsTexts (fuel : ℕ) : ReadsTexts fuel := by
  induction fuel with
  | zero =>
      constructor <;> intro b rest v h <;> cases h
  | succ fuel ih =>
      refine ⟨text_of_parseValue ih, ?_, text_of_parseElems₁ ih, ?_, text_of_parseMembers₁ ih⟩
      · intro b rest vs h
        rw [parseElems] at h
        split at h
        · next rest' hclose =>
            cases h
            obtain ⟨w, hw, hb⟩ := eq_of_expect_skipSpace hclose
            exact ⟨w, hb, by rw [ElemsText]; exact hw⟩
        · exact (ih.elems₁ h).2
      · intro b rest ms h
        rw [parseMembers] at h
        split at h
        · next rest' hclose =>
            cases h
            obtain ⟨w, hw, hb⟩ := eq_of_expect_skipSpace hclose
            exact ⟨w, hb, by rw [MembersText]; exact hw⟩
        · exact (ih.members₁ h).2

/-- An object is read whatever stands after it. -/
theorem parseValue_object {ms : List (StringLit × Json)} {t : Bytes} (h : Text (.object ms) t)
    (rest : Bytes) {fuel : ℕ} (hfuel : 3 * t.length ≤ fuel) :
    parseValue fuel (t ++ rest) = some (.object ms, rest) := by
  rw [Text] at h
  obtain ⟨t, rfl, h⟩ := h
  simp only [List.length_cons, List.length_append, List.length_nil] at hfuel
  obtain ⟨fuel, rfl⟩ : ∃ n, fuel = n + 2 := ⟨fuel - 2, by omega⟩
  rw [List.cons_append, parseValue, if_pos rfl, List.append_assoc]
  cases ms with
  | nil => exact congrArg (Option.map _) (parseMembers_nil h fuel rest)
  | cons m ms =>
      have hrec := parseMembers₁_text (m :: ms) t rest fuel h (by simp) (by omega)
      exact congrArg (Option.map _) ((parseMembers_cons h fuel _).trans hrec)

/-! ## Decoders -/

/-- `Decoder.readValue`: the value at the front of the input, and what stands after it. -/
def readValue (data : Bytes) : Option (Json × Bytes) :=
  match parseValue (3 * data.length + 3) (skipSpace data) with
  | some (v, rest) => if v.depth ≤ maxNestingDepth then some (v, rest) else none
  | none => none

/-- `Decoder.More`: there is something else than white space, and it is no closing bracket. -/
def more (rest : Bytes) : Bool :=
  match skipSpace rest with
  | [] => false
  | c :: _ => c ≠ closeBracket && c ≠ closeBrace

/-- The data starts with the object, up to white space before it. -/
def StartsWith (data : Bytes) (ms : List (StringLit × Json)) (rest : Bytes) : Prop :=
  ∃ w t, IsSpaces w ∧ Text (.object ms) t ∧ data = w ++ (t ++ rest)

/-- The objects that are read are those at the front of the input. -/
theorem readValue_object_iff {data rest : Bytes} {ms : List (StringLit × Json)} :
    readValue data = some (.object ms, rest) ↔
      StartsWith data ms rest ∧ (Json.object ms).depth ≤ maxNestingDepth := by
  rw [readValue]
  constructor
  · intro h
    split at h
    · next v rest' hparse =>
        split at h
        · next hdepth =>
            cases h
            obtain ⟨w, hw, hdata⟩ := exists_skipSpace data
            obtain ⟨t, ht, htext⟩ := (readsTexts _).value hparse
            exact ⟨⟨w, t, hw, htext, hdata.trans (congrArg (w ++ ·) ht)⟩, hdepth⟩
        · cases h
    · cases h
  · rintro ⟨⟨w, t, hw, ht, rfl⟩, hdepth⟩
    have hfuel : 3 * t.length ≤ 3 * (w ++ (t ++ rest)).length + 3 := by
      simp only [List.length_append]
      omega
    rw [skipSpace_text hw ht, parseValue_object ht rest hfuel]
    exact if_pos hdepth

/-- There is one object at the front of the data. -/
theorem StartsWith.unique {data rest rest' : Bytes} {ms ms' : List (StringLit × Json)}
    (h : StartsWith data ms rest) (h' : StartsWith data ms' rest') : ms' = ms ∧ rest' = rest := by
  obtain ⟨w, t, hw, ht, rfl⟩ := h
  obtain ⟨w', t', hw', ht', heq⟩ := h'
  have hskip := congrArg skipSpace heq
  rw [skipSpace_text hw ht, skipSpace_text hw' ht'] at hskip
  have hread := parseValue_object ht rest (Nat.le_add_right (3 * t.length) (3 * t'.length))
  rw [hskip, parseValue_object ht' rest' (Nat.le_add_left _ _)] at hread
  cases hread
  exact ⟨rfl, rfl⟩

/-- The whole data is one object exactly if only white space stands after the object at its front. -/
theorem document_object_iff {data rest : Bytes} {ms : List (StringLit × Json)}
    (h : StartsWith data ms rest) : (∃ ms', Document (.object ms') data) ↔ IsSpaces rest := by
  constructor
  · rintro ⟨ms', w', t', w₂, heq, hw', ht', hw₂⟩
    obtain ⟨-, hrest⟩ := h.unique ⟨w', t', hw', ht', heq⟩
    exact hrest ▸ hw₂
  · intro hrest
    obtain ⟨w, t, hw, ht, rfl⟩ := h
    exact ⟨ms, w, t, rest, rfl, hw, ht, hrest⟩

/-- `More` overlooks what starts with a closing bracket. -/
theorem more_eq_false_iff {rest : Bytes} :
    more rest = false ↔
      IsSpaces rest ∨ ∃ c ∈ (skipSpace rest).head?, c = closeBracket ∨ c = closeBrace := by
  rw [more, ← skipSpace_eq_nil_iff]
  cases skipSpace rest with
  | nil => simp
  | cons c b =>
      simp only [reduceCtorEq, false_or, List.head?_cons, Option.mem_some_iff, exists_eq_left']
      by_cases hbracket : c = closeBracket
      · simp [hbracket]
      · simp [hbracket]

end Json
