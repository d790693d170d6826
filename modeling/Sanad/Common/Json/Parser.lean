import Sanad.Common.Json.Syntax

/-! # Parsing JSON

A recursive-descent parser for JSON documents, bounded by fuel. The length of the input is fuel
enough (`parse_of_document`), so the parser reads every document; in particular it reads back what
`render` writes (`parse_render`), and different values have different texts (`render_injective`).
-/

namespace Json

/-- Drop leading whitespace. -/
def skipSpace : Bytes → Bytes
  | [] => []
  | c :: rest => if isSpace c then skipSpace rest else c :: rest

/-- Read exactly the bytes `l`. -/
def expect (l b : Bytes) : Option Bytes :=
  if l <+: b then some (b.drop l.length) else none

/-- Read a string literal and its closing quote. -/
def parseString (b : Bytes) : Option (StringLit × Bytes) := do
  let (lit, rest) ← stringLexer.scan .plain b
  let rest ← expect [quoteMark] rest
  some (lit, rest)

/-- Read the key of a member and the colon after it. -/
def parseKey (b : Bytes) : Option (StringLit × Bytes) := do
  let b ← expect [quoteMark] (skipSpace b)
  let (k, b) ← parseString b
  let b ← expect [colon] (skipSpace b)
  some (k, b)

mutual

/-- Read a value that starts at the first byte. -/
def parseValue : ℕ → Bytes → Option (Json × Bytes)
  | 0, _ => none
  | _, [] => none
  | fuel + 1, c :: rest =>
    if c = openBrace then
      (parseMembers fuel rest).map fun p => (.object p.1, p.2)
    else if c = openBracket then
      (parseElems fuel rest).map fun p => (.array p.1, p.2)
    else if c = quoteMark then
      (parseString rest).map fun p => (.string p.1, p.2)
    else if c = 0x74 then
      (expect (boolText true) (c :: rest)).map fun rest => (.bool true, rest)
    else if c = 0x66 then
      (expect (boolText false) (c :: rest)).map fun rest => (.bool false, rest)
    else if c = 0x6e then
      (expect (Bytes.ascii "null") (c :: rest)).map fun rest => (.null, rest)
    else (numberLexer.scan .start (c :: rest)).map fun p => (.number p.1, p.2)

/-- Read the elements of an array after its opening bracket. -/
def parseElems : ℕ → Bytes → Option (List Json × Bytes)
  | 0, _ => none
  | fuel + 1, b =>
    match expect [closeBracket] (skipSpace b) with
    | some rest => some ([], rest)
    | none => parseElems₁ fuel b

/-- Read at least one element, and the closing bracket. -/
def parseElems₁ : ℕ → Bytes → Option (List Json × Bytes)
  | 0, _ => none
  | fuel + 1, b => do
    let (v, b) ← parseValue fuel (skipSpace b)
    match expect [comma] (skipSpace b) with
    | some b => (parseElems₁ fuel b).map fun p => (v :: p.1, p.2)
    | none => (expect [closeBracket] (skipSpace b)).map fun rest => ([v], rest)

/-- Read the members of an object after its opening brace. -/
def parseMembers : ℕ → Bytes → Option (List (StringLit × Json) × Bytes)
  | 0, _ => none
  | fuel + 1, b =>
    match expect [closeBrace] (skipSpace b) with
    | some rest => some ([], rest)
    | none => parseMembers₁ fuel b

/-- Read at least one member, and the closing brace. -/
def parseMembers₁ : ℕ → Bytes → Option (List (StringLit × Json) × Bytes)
  | 0, _ => none
  | fuel + 1, b => do
    let (k, b) ← parseKey b
    let (v, b) ← parseValue fuel (skipSpace b)
    match expect [comma] (skipSpace b) with
    | some b => (parseMembers₁ fuel b).map fun p => ((k, v) :: p.1, p.2)
    | none => (expect [closeBrace] (skipSpace b)).map fun rest => ([(k, v)], rest)

end

/-- Read a document: one value with only whitespace around it. -/
def parse (b : Bytes) : Option Json :=
  match parseValue (3 * b.length + 3) (skipSpace b) with
  | some (v, rest) => if skipSpace rest = [] then some v else none
  | none => none

/-! ## Tokens and whitespace -/

theorem skipSpace_append {w : Bytes} (hw : IsSpaces w) (b : Bytes) :
    skipSpace (w ++ b) = skipSpace b := by
  induction w with
  | nil => rfl
  | cons c w ih =>
      rw [List.cons_append, skipSpace, if_pos (hw c List.mem_cons_self)]
      exact ih fun d hd => hw d (List.mem_cons_of_mem c hd)

theorem skipSpace_cons {c : UInt8} (hc : isSpace c = false) (b : Bytes) :
    skipSpace (c :: b) = c :: b := by
  rw [skipSpace, hc]
  rfl

theorem expect_append (l b : Bytes) : expect l (l ++ b) = some b := by
  rw [expect, if_pos (List.prefix_append l b), List.drop_left]

theorem expect_self (c : UInt8) (b : Bytes) : expect [c] (c :: b) = some b := expect_append [c] b

theorem expect_ne {c d : UInt8} (h : c ≠ d) (b : Bytes) : expect [c] (d :: b) = none := by
  rw [expect, if_neg]
  intro hp
  exact h (List.cons_prefix_cons.mp hp).1

/-- The bytes that may follow a value. -/
def Follows (rest : Bytes) : Prop :=
  ∀ c ∈ rest.head?, isSpace c = true ∨ c = comma ∨ c = closeBracket ∨ c = closeBrace

theorem follows_nil : Follows [] := by
  intro c hc
  cases hc

theorem follows_cons {c : UInt8} (b : Bytes)
    (h : isSpace c = true ∨ c = comma ∨ c = closeBracket ∨ c = closeBrace) : Follows (c :: b) := by
  rintro d ⟨⟩
  exact h

theorem follows_append {w b : Bytes} (hw : IsSpaces w) (hb : Follows b) : Follows (w ++ b) := by
  cases w with
  | nil => exact hb
  | cons c w => exact follows_cons _ (.inl (hw c List.mem_cons_self))

/-- No byte that follows a value continues a number. -/
theorem numberLexer_step_of_follow (s : NumberState) {c : UInt8}
    (hc : isSpace c = true ∨ c = comma ∨ c = closeBracket ∨ c = closeBrace) :
    numberLexer.step s c = none := by
  simp only [isSpace, Bool.or_eq_true, decide_eq_true_eq] at hc
  rcases hc with ((((rfl | rfl) | rfl) | rfl) | rfl | rfl | rfl) <;> cases s <;> rfl

theorem parseString_append (lit : StringLit) (rest : Bytes) :
    parseString (lit.bytes ++ quoteMark :: rest) = some (lit, rest) := by
  have hstops : ∀ s, stringLexer.final s = true →
      ∀ c ∈ (quoteMark :: rest).head?, stringLexer.step s c = none := by
    rintro s hs c ⟨⟩
    cases s <;> first | rfl | cases hs
  rw [parseString, Lexer.scan_append lit hstops]
  simp [expect_self]

theorem parseKey_append (k : StringLit) {w₁ w₂ : Bytes} (hw₁ : IsSpaces w₁) (hw₂ : IsSpaces w₂)
    (b : Bytes) : parseKey (w₁ ++ (quoted k ++ (w₂ ++ colon :: b))) = some (k, b) := by
  rw [parseKey, skipSpace_append hw₁, quoted, List.cons_append, skipSpace_cons rfl, expect_self,
    List.append_assoc]
  simp only [Option.bind_eq_bind, Option.bind_some, List.singleton_append, parseString_append]
  rw [skipSpace_append hw₂, skipSpace_cons rfl, expect_self]
  rfl

/-! ## The first byte of a value -/

/-- The bytes that may start a value. -/
def isStart (c : UInt8) : Bool :=
  c = openBrace || c = openBracket || c = quoteMark || c = 0x74 || c = 0x66 || c = 0x6e ||
    c = 0x2d || isDigit c

/-- A number starts with a digit or a minus sign. -/
theorem number_head (lit : NumberLit) :
    ∃ c t, lit.bytes = c :: t ∧ (c = 0x2d ∨ isDigit c = true) := by
  obtain ⟨bytes, hacc⟩ := lit
  cases bytes with
  | nil => exact absurd hacc (by decide)
  | cons c t =>
      refine ⟨c, t, rfl, ?_⟩
      by_contra hc
      rw [not_or] at hc
      have hzero : c ≠ 0x30 := by
        rintro rfl
        exact hc.2 rfl
      have hstep : numberLexer.step .start c = none := by
        simp [numberLexer, hc, hzero]
      rw [Lexer.accepts, Lexer.run, hstep] at hacc
      cases hacc

theorem text_head {v : Json} {t : Bytes} (h : Text v t) :
    ∃ c t', t = c :: t' ∧ isStart c = true := by
  cases v with
  | null =>
      rw [Text] at h
      exact ⟨_, _, h, by decide⟩
  | bool x =>
      rw [Text] at h
      cases x
      · exact ⟨_, _, h, by decide⟩
      · exact ⟨_, _, h, by decide⟩
  | number lit =>
      rw [Text] at h
      obtain ⟨c, t', hlit, hc⟩ := number_head lit
      refine ⟨c, t', h.trans hlit, ?_⟩
      rcases hc with rfl | hc
      · decide
      · simp [isStart, hc]
  | string lit =>
      rw [Text] at h
      exact ⟨_, _, h, by decide⟩
  | array vs =>
      rw [Text] at h
      obtain ⟨t', h, -⟩ := h
      exact ⟨_, _, h, by decide⟩
  | object ms =>
      rw [Text] at h
      obtain ⟨t', h, -⟩ := h
      exact ⟨_, _, h, by decide⟩

/-- A byte that starts a value is no separator. -/
theorem isStart_spec {c : UInt8} (h : isStart c = true) :
    isSpace c = false ∧ c ≠ comma ∧ c ≠ closeBracket ∧ c ≠ closeBrace := by
  refine ⟨?_, ?_, ?_, ?_⟩
  · rw [Bool.eq_false_iff]
    intro hs
    simp only [isSpace, Bool.or_eq_true, decide_eq_true_eq] at hs
    rcases hs with (((rfl | rfl) | rfl) | rfl) <;> exact absurd h (by decide)
  · rintro rfl
    exact absurd h (by decide)
  · rintro rfl
    exact absurd h (by decide)
  · rintro rfl
    exact absurd h (by decide)

theorem skipSpace_text {v : Json} {t w : Bytes} (hw : IsSpaces w) (h : Text v t) (b : Bytes) :
    skipSpace (w ++ (t ++ b)) = t ++ b := by
  obtain ⟨c, t', rfl, hc⟩ := text_head h
  rw [skipSpace_append hw, List.cons_append, skipSpace_cons (isStart_spec hc).1]

/-! ## Completeness -/

theorem parseElems_nil {t : Bytes} (h : ElemsText [] t) (fuel : ℕ) (rest : Bytes) :
    parseElems (fuel + 1) (t ++ closeBracket :: rest) = some ([], rest) := by
  rw [ElemsText] at h
  rw [parseElems, skipSpace_append h, skipSpace_cons rfl, expect_self]

theorem parseElems_cons {v : Json} {vs : List Json} {t : Bytes} (h : ElemsText (v :: vs) t)
    (fuel : ℕ) (b : Bytes) : parseElems (fuel + 1) (t ++ b) = parseElems₁ fuel (t ++ b) := by
  have hnone : expect [closeBracket] (skipSpace (t ++ b)) = none := by
    rw [ElemsText] at h
    obtain ⟨w₁, t₁, w₂, hw₁, ht₁, -, h⟩ := h
    obtain ⟨c, t', hc, hstart⟩ := text_head ht₁
    have hskip : ∃ r, skipSpace (t ++ b) = c :: r := by
      rcases h with ⟨-, rfl⟩ | ⟨-, t₂, rfl, -⟩
      · rw [List.append_assoc, List.append_assoc, skipSpace_text hw₁ ht₁, hc]
        exact ⟨_, rfl⟩
      · rw [List.append_assoc, List.append_assoc, skipSpace_text hw₁ ht₁, hc]
        exact ⟨_, rfl⟩
    obtain ⟨r, hr⟩ := hskip
    rw [hr, expect_ne (isStart_spec hstart).2.2.1.symm]
  rw [parseElems, hnone]

theorem parseMembers_nil {t : Bytes} (h : MembersText [] t) (fuel : ℕ) (rest : Bytes) :
    parseMembers (fuel + 1) (t ++ closeBrace :: rest) = some ([], rest) := by
  rw [MembersText] at h
  rw [parseMembers, skipSpace_append h, skipSpace_cons rfl, expect_self]

theorem parseMembers_cons {m : StringLit × Json} {ms : List (StringLit × Json)} {t : Bytes}
    (h : MembersText (m :: ms) t) (fuel : ℕ) (b : Bytes) :
    parseMembers (fuel + 1) (t ++ b) = parseMembers₁ fuel (t ++ b) := by
  obtain ⟨k, v⟩ := m
  have hnone : expect [closeBrace] (skipSpace (t ++ b)) = none := by
    rw [MembersText] at h
    obtain ⟨w₁, w₂, w₃, t₁, w₄, hw₁, -, -, -, -, h⟩ := h
    have hskip : ∃ r, skipSpace (t ++ b) = quoteMark :: r := by
      rcases h with ⟨-, rfl⟩ | ⟨-, t₂, rfl, -⟩
      · rw [List.append_assoc, skipSpace_append hw₁]
        exact ⟨_, skipSpace_cons rfl _⟩
      · rw [List.append_assoc, skipSpace_append hw₁]
        exact ⟨_, skipSpace_cons rfl _⟩
    obtain ⟨r, hr⟩ := hskip
    rw [hr, expect_ne (by decide)]
  rw [parseMembers, hnone]

/-- The number branch of the parser is taken for every number. -/
theorem parseValue_number (lit : NumberLit) {rest : Bytes} (hrest : Follows rest) (fuel : ℕ) :
    parseValue (fuel + 1) (lit.bytes ++ rest) = some (.number lit, rest) := by
  have hscan := Lexer.scan_append lit fun s _ c hc => numberLexer_step_of_follow s (hrest c hc)
  obtain ⟨c, t, hlit, hc⟩ := number_head lit
  rw [hlit, List.cons_append] at hscan ⊢
  have hne : c ≠ openBrace ∧ c ≠ openBracket ∧ c ≠ quoteMark ∧ c ≠ 0x74 ∧ c ≠ 0x66 ∧ c ≠ 0x6e := by
    refine ⟨?_, ?_, ?_, ?_, ?_, ?_⟩ <;> rintro rfl <;> exact absurd hc (by decide)
  obtain ⟨h₁, h₂, h₃, h₄, h₅, h₆⟩ := hne
  rw [parseValue, if_neg h₁, if_neg h₂, if_neg h₃, if_neg h₄, if_neg h₅, if_neg h₆, hscan]
  rfl

mutual

/-- The parser reads a value off the front of its input, given fuel for the length of its text. -/
theorem parseValue_text : ∀ (v : Json) (t rest : Bytes) (fuel : ℕ), Text v t → Follows rest →
    3 * t.length ≤ fuel → parseValue fuel (t ++ rest) = some (v, rest)
  | .null, t, rest, fuel, h, _, hfuel => by
      rw [Text] at h
      subst h
      obtain ⟨fuel, rfl⟩ : ∃ n, fuel = n + 1 := ⟨fuel - 1, by simp [Bytes.ascii] at hfuel; omega⟩
      exact congrArg (Option.map _) (expect_append (Bytes.ascii "null") rest)
  | .bool x, t, rest, fuel, h, _, hfuel => by
      rw [Text] at h
      subst h
      obtain ⟨fuel, rfl⟩ : ∃ n, fuel = n + 1 :=
        ⟨fuel - 1, by cases x <;> simp [boolText, Bytes.ascii] at hfuel <;> omega⟩
      cases x
      · exact congrArg (Option.map _) (expect_append (boolText false) rest)
      · exact congrArg (Option.map _) (expect_append (boolText true) rest)
  | .number lit, t, rest, fuel, h, hrest, hfuel => by
      rw [Text] at h
      subst h
      obtain ⟨c, t, hlit, -⟩ := number_head lit
      obtain ⟨fuel, rfl⟩ : ∃ n, fuel = n + 1 := ⟨fuel - 1, by simp [hlit] at hfuel; omega⟩
      exact parseValue_number lit hrest fuel
  | .string lit, t, rest, fuel, h, _, hfuel => by
      rw [Text] at h
      subst h
      obtain ⟨fuel, rfl⟩ : ∃ n, fuel = n + 1 := ⟨fuel - 1, by simp [quoted] at hfuel; omega⟩
      rw [quoted, List.cons_append, parseValue, if_neg (by decide), if_neg (by decide), if_pos rfl,
        List.append_assoc]
      exact congrArg (Option.map _) (parseString_append lit rest)
  | .array vs, t, rest, fuel, h, _, hfuel => by
      rw [Text] at h
      obtain ⟨t, rfl, h⟩ := h
      simp only [List.length_cons, List.length_append, List.length_nil] at hfuel
      obtain ⟨fuel, rfl⟩ : ∃ n, fuel = n + 2 := ⟨fuel - 2, by omega⟩
      rw [List.cons_append, parseValue, if_neg (by decide), if_pos rfl, List.append_assoc]
      cases vs with
      | nil => exact congrArg (Option.map _) (parseElems_nil h fuel rest)
      | cons v vs =>
          have hrec := parseElems₁_text (v :: vs) t rest fuel h (by simp) (by omega)
          exact congrArg (Option.map _) ((parseElems_cons h fuel _).trans hrec)
  | .object ms, t, rest, fuel, h, _, hfuel => by
      rw [Text] at h
      obtain ⟨t, rfl, h⟩ := h
      simp only [List.length_cons, List.length_append, List.length_nil] at hfuel
      obtain ⟨fuel, rfl⟩ : ∃ n, fuel = n + 2 := ⟨fuel - 2, by omega⟩
      rw [List.cons_append, parseValue, if_pos rfl, List.append_assoc]
      cases ms with
      | nil => exact congrArg (Option.map _) (parseMembers_nil h fuel rest)
      | cons m ms =>
          have hrec := parseMembers₁_text (m :: ms) t rest fuel h (by simp) (by omega)
          exact congrArg (Option.map _) ((parseMembers_cons h fuel _).trans hrec)

theorem parseElems₁_text : ∀ (vs : List Json) (t rest : Bytes) (fuel : ℕ), ElemsText vs t → vs ≠ [] →
    3 * t.length + 1 ≤ fuel → parseElems₁ fuel (t ++ closeBracket :: rest) = some (vs, rest)
  | [], _, _, _, _, hne, _ => absurd rfl hne
  | v :: vs, t, rest, fuel, h, _, hfuel => by
      rw [ElemsText] at h
      obtain ⟨w₁, t₁, w₂, hw₁, ht₁, hw₂, h⟩ := h
      obtain ⟨fuel, rfl⟩ : ∃ n, fuel = n + 1 := ⟨fuel - 1, by omega⟩
      rw [parseElems₁]
      rcases h with ⟨rfl, rfl⟩ | ⟨hne, t₂, rfl, ht₂⟩
      · simp only [List.length_append] at hfuel
        have hv := parseValue_text v t₁ (w₂ ++ closeBracket :: rest) fuel ht₁
          (follows_append hw₂ (follows_cons _ (by simp))) (by omega)
        rw [List.append_assoc, List.append_assoc, skipSpace_text hw₁ ht₁, hv]
        simp only [Option.bind_eq_bind, Option.bind_some, skipSpace_append hw₂]
        rw [skipSpace_cons rfl, expect_ne (by decide)]
        exact congrArg (Option.map _) (expect_self _ rest)
      · simp only [List.length_append, List.length_cons] at hfuel
        have hv := parseValue_text v t₁ (w₂ ++ comma :: (t₂ ++ closeBracket :: rest)) fuel ht₁
          (follows_append hw₂ (follows_cons _ (by simp))) (by omega)
        simp only [List.append_assoc, List.cons_append]
        rw [skipSpace_text hw₁ ht₁, hv]
        simp only [Option.bind_eq_bind, Option.bind_some, skipSpace_append hw₂]
        rw [skipSpace_cons rfl, expect_self]
        exact congrArg (Option.map _) (parseElems₁_text vs t₂ rest fuel ht₂ hne (by omega))

theorem parseMembers₁_text : ∀ (ms : List (StringLit × Json)) (t rest : Bytes) (fuel : ℕ),
    MembersText ms t → ms ≠ [] → 3 * t.length + 1 ≤ fuel →
    parseMembers₁ fuel (t ++ closeBrace :: rest) = some (ms, rest)
  | [], _, _, _, _, hne, _ => absurd rfl hne
  | (k, v) :: ms, t, rest, fuel, h, _, hfuel => by
      rw [MembersText] at h
      obtain ⟨w₁, w₂, w₃, t₁, w₄, hw₁, hw₂, hw₃, ht₁, hw₄, h⟩ := h
      obtain ⟨fuel, rfl⟩ : ∃ n, fuel = n + 1 := ⟨fuel - 1, by omega⟩
      rw [parseMembers₁]
      rcases h with ⟨rfl, rfl⟩ | ⟨hne, t₂, rfl, ht₂⟩
      · simp only [List.length_append, List.length_cons] at hfuel
        have hv := parseValue_text v t₁ (w₄ ++ closeBrace :: rest) fuel ht₁
          (follows_append hw₄ (follows_cons _ (by simp))) (by omega)
        simp only [List.append_assoc, List.cons_append]
        rw [parseKey_append k hw₁ hw₂]
        simp only [Option.bind_eq_bind, Option.bind_some]
        rw [skipSpace_text hw₃ ht₁, hv]
        simp only [Option.bind_some, skipSpace_append hw₄]
        rw [skipSpace_cons rfl, expect_ne (by decide)]
        exact congrArg (Option.map _) (expect_self _ rest)
      · simp only [List.length_append, List.length_cons] at hfuel
        have hv := parseValue_text v t₁ (w₄ ++ comma :: (t₂ ++ closeBrace :: rest)) fuel ht₁
          (follows_append hw₄ (follows_cons _ (by simp))) (by omega)
        simp only [List.append_assoc, List.cons_append]
        rw [parseKey_append k hw₁ hw₂]
        simp only [Option.bind_eq_bind, Option.bind_some]
        rw [skipSpace_text hw₃ ht₁, hv]
        simp only [Option.bind_some, skipSpace_append hw₄]
        rw [skipSpace_cons rfl, expect_self]
        exact congrArg (Option.map _) (parseMembers₁_text ms t₂ rest fuel ht₂ hne (by omega))

end

/-- The parser reads every document. -/
theorem parse_of_document {v : Json} {b : Bytes} (h : Document v b) : parse b = some v := by
  obtain ⟨w₁, t, w₂, rfl, hw₁, ht, hw₂⟩ := h
  have hfollow : Follows w₂ := by
    have := follows_append hw₂ follows_nil
    rwa [List.append_nil] at this
  have hempty : skipSpace w₂ = [] := by
    have := skipSpace_append hw₂ []
    rwa [List.append_nil] at this
  rw [parse, skipSpace_text hw₁ ht, parseValue_text v t w₂ _ ht hfollow (by simp; omega)]
  simp [hempty]

/-- Compact texts are read back. -/
theorem parse_render (v : Json) : parse (render v) = some v :=
  parse_of_document ⟨[], render v, [], by simp, isSpaces_nil, text_render v, isSpaces_nil⟩

/-- Different values have different compact texts. -/
theorem render_injective {v v' : Json} (h : render v = render v') : v = v' := by
  have := parse_render v
  rw [h, parse_render] at this
  exact (Option.some.inj this).symm

end Json
