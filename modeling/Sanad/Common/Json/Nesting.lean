import Sanad.Common.Json.Syntax

/-! # Where a byte stands in a text

A scanner that knows how deeply it is nested and whether it is inside a string, without parsing. The
text of a value takes it back to where it started. So a text has no second object that runs to its
end: the first one still has to be closed.
-/

namespace Json

/-- Where the scanner stands, with the number of brackets and braces that are open. -/
inductive Place where
  | between (depth : ℕ)
  | string (depth : ℕ) (st : StringState)
  /-- Right after a string. -/
  | closed (depth : ℕ)
  deriving DecidableEq, Repr

/-- What may follow a value. -/
def punctuation : Bytes := [comma, colon, closeBracket, closeBrace]

/-- The effect of a closing bracket or brace, or of a byte without a role of its own. -/
def Place.after (depth : ℕ) (c : UInt8) : Option Place :=
  if c = closeBracket ∨ c = closeBrace then
    match depth with
    | 0 => none
    | depth + 1 => some (.between depth)
  else some (.between depth)

/-- The scanner. After a string it insists on punctuation. -/
def nesting : Lexer Place where
  step
    | .between depth, c =>
      if c = quoteMark then some (.string depth .plain)
      else if c = openBracket ∨ c = openBrace then some (.between (depth + 1))
      else Place.after depth c
    | .string depth st, c =>
      if st = .plain ∧ c = quoteMark then some (.closed depth)
      else (stringLexer.step st c).map (.string depth)
    | .closed depth, c => if c ∈ punctuation then Place.after depth c else none
  final _ := true

/-! ## Literals -/

theorem run_string {st st' : StringState} {b : Bytes} (depth : ℕ)
    (h : stringLexer.run st b = some st') :
    nesting.run (.string depth st) b = some (.string depth st') := by
  induction b generalizing st with
  | nil =>
      cases h
      rfl
  | cons c b ih =>
      rw [Lexer.run] at h
      obtain ⟨st₁, hstep, hrun⟩ := Option.bind_eq_some_iff.mp h
      have hquote : ¬(st = .plain ∧ c = quoteMark) := by
        rintro ⟨rfl, rfl⟩
        cases hstep
      have hnest : nesting.step (.string depth st) c = some (.string depth st₁) := by
        simp only [nesting, if_neg hquote, hstep, Option.map_some]
      rw [Lexer.run, hnest]
      exact ih hrun

theorem run_quoted (depth : ℕ) (s : StringLit) (t : Bytes) :
    nesting.run (.between depth) (quoted s ++ t) = nesting.run (.closed depth) t := by
  obtain ⟨st, hrun, hfinal⟩ : ∃ st, stringLexer.run .plain s.bytes = some st ∧
      stringLexer.final st = true := (Option.any_eq_true _ _).mp s.2
  obtain rfl : st = .plain := of_decide_eq_true hfinal
  -- the quote, the literal, the quote
  have hopen : nesting.step (.between depth) quoteMark = some (.string depth .plain) := rfl
  have hclose : nesting.step (.string depth .plain) quoteMark = some (.closed depth) := rfl
  rw [quoted, List.cons_append, Lexer.run, hopen, List.append_assoc]
  change nesting.run (.string depth .plain) (s.bytes ++ ([quoteMark] ++ t)) = _
  rw [Lexer.run_append (run_string depth hrun), List.singleton_append, Lexer.run, hclose]
  rfl

/-- The bytes that the scanner takes notice of outside of strings. -/
def structural : Bytes := [quoteMark, openBracket, openBrace, closeBracket, closeBrace]

theorem run_unstructured {b : Bytes} (h : ∀ c ∈ b, c ∉ structural) (depth : ℕ) (t : Bytes) :
    nesting.run (.between depth) (b ++ t) = nesting.run (.between depth) t := by
  induction b with
  | nil => rfl
  | cons c b ih =>
      have hc := h c List.mem_cons_self
      simp only [structural, List.mem_cons, List.not_mem_nil, or_false, not_or] at hc
      obtain ⟨hquote, hbracket, hbrace, hbracket', hbrace'⟩ := hc
      have hstep : nesting.step (.between depth) c = some (.between depth) := by
        simp [nesting, Place.after, hquote, hbracket, hbrace, hbracket', hbrace']
      rw [List.cons_append, Lexer.run, hstep]
      exact ih fun c' hc' => h c' (List.mem_cons_of_mem c hc')

theorem unstructured_of_all {b : Bytes} (h : b.all (fun c => c ∉ structural) = true) :
    ∀ c ∈ b, c ∉ structural :=
  fun c hc => of_decide_eq_true (List.all_eq_true.mp h c hc)

theorem numberLexer_step_structural (st : NumberState) {c : UInt8} (hc : c ∈ structural) :
    numberLexer.step st c = none := by
  simp only [structural, List.mem_cons, List.not_mem_nil, or_false] at hc
  rcases hc with rfl | rfl | rfl | rfl | rfl <;> cases st <;> rfl

theorem number_unstructured {st : NumberState} {b : Bytes} (h : numberLexer.accepts st b = true) :
    ∀ c ∈ b, c ∉ structural := by
  induction b generalizing st with
  | nil => simp
  | cons c b ih =>
      cases hstep : numberLexer.step st c with
      | none =>
          rw [Lexer.accepts, Lexer.run, hstep] at h
          cases h
      | some st' =>
          rw [Lexer.accepts_cons hstep] at h
          intro c' hc'
          rcases List.mem_cons.mp hc' with rfl | hc'
          · intro hstructural
            rw [numberLexer_step_structural st hstructural] at hstep
            cases hstep
          · exact ih h c' hc'

/-! ## Values -/

/-- Punctuation has the same effect after a string as elsewhere. -/
theorem run_closed {c : UInt8} (hc : c ∈ punctuation) (depth : ℕ) (t : Bytes) :
    nesting.run (.closed depth) (c :: t) = nesting.run (.between depth) (c :: t) := by
  simp only [punctuation, List.mem_cons, List.not_mem_nil, or_false] at hc
  rcases hc with rfl | rfl | rfl | rfl <;> rfl

theorem run_comma (depth : ℕ) (t : Bytes) :
    nesting.run (.between depth) (comma :: t) = nesting.run (.between depth) t := rfl

theorem run_colon (depth : ℕ) (t : Bytes) :
    nesting.run (.between depth) (colon :: t) = nesting.run (.between depth) t := rfl

mutual

/-- Before punctuation, the text of a value makes no difference. -/
theorem run_render {c : UInt8} (hc : c ∈ punctuation) (t : Bytes) :
    ∀ (v : Json) (depth : ℕ),
      nesting.run (.between depth) (render v ++ c :: t) = nesting.run (.between depth) (c :: t)
  | .null, depth => by
      rw [render]
      exact run_unstructured (unstructured_of_all (by decide)) depth _
  | .bool x, depth => by
      rw [render]
      exact run_unstructured (unstructured_of_all (by cases x <;> decide)) depth _
  | .number lit, depth => by
      rw [render]
      exact run_unstructured (number_unstructured lit.2) depth _
  | .string lit, depth => by rw [render, run_quoted, run_closed hc]
  | .array vs, depth => by
      rw [render, List.cons_append, List.append_assoc, List.singleton_append]
      change nesting.run (.between (depth + 1)) (renderElems vs ++ closeBracket :: (c :: t)) = _
      rw [run_renderElems (by decide) (c :: t) vs (depth + 1)]
      rfl
  | .object ms, depth => by
      rw [render, List.cons_append, List.append_assoc, List.singleton_append]
      change nesting.run (.between (depth + 1)) (renderMembers ms ++ closeBrace :: (c :: t)) = _
      rw [run_renderMembers (by decide) (c :: t) ms (depth + 1)]
      rfl

theorem run_renderElems {c : UInt8} (hc : c ∈ punctuation) (t : Bytes) :
    ∀ (vs : List Json) (depth : ℕ),
      nesting.run (.between depth) (renderElems vs ++ c :: t) = nesting.run (.between depth) (c :: t)
  | [], depth => by rw [renderElems, List.nil_append]
  | [v], depth => by rw [renderElems, run_render hc t v depth]
  | v :: v' :: vs, depth => by
      rw [renderElems, List.append_assoc, List.cons_append,
        run_render (by decide) (renderElems (v' :: vs) ++ c :: t) v depth, run_comma,
        run_renderElems hc t (v' :: vs) depth]

theorem run_renderMembers {c : UInt8} (hc : c ∈ punctuation) (t : Bytes) :
    ∀ (ms : List (StringLit × Json)) (depth : ℕ),
      nesting.run (.between depth) (renderMembers ms ++ c :: t) =
        nesting.run (.between depth) (c :: t)
  | [], depth => by rw [renderMembers, List.nil_append]
  | [(k, v)], depth => by
      rw [renderMembers, List.append_assoc, List.cons_append, run_quoted, run_closed (by decide),
        run_colon, run_render hc t v depth]
  | (k, v) :: m :: ms, depth => by
      rw [renderMembers, List.append_assoc, List.cons_append, List.append_assoc, List.cons_append,
        run_quoted, run_closed (by decide), run_colon,
        run_render (by decide) (renderMembers (m :: ms) ++ c :: t) v depth, run_comma,
        run_renderMembers hc t (m :: ms) depth]

end

/-! ## Suffixes -/

theorem renderMembers_cons (k : StringLit) (v : Json) (ms : List (StringLit × Json)) :
    ∃ t, renderMembers ((k, v) :: ms) = quoted k ++ colon :: t := by
  cases ms with
  | nil => exact ⟨render v, by rw [renderMembers]⟩
  | cons m ms => exact ⟨_, by rw [renderMembers]⟩

/-- Inside a string there is no object: its first quote would end the string, and the name of its
first member would follow. -/
theorem run_string_object (depth : ℕ) (st : StringState) {k : StringLit} {c : UInt8}
    (hk : k.bytes.head? = some c) (hc : c ∉ punctuation) (t : Bytes) :
    nesting.run (.string depth st) (openBrace :: (quoted k ++ t)) = none := by
  obtain ⟨rest, hrest⟩ : ∃ rest, k.bytes = c :: rest := by
    cases hbytes : k.bytes with
    | nil =>
        rw [hbytes] at hk
        cases hk
    | cons c' rest =>
        rw [hbytes] at hk
        cases hk
        exact ⟨rest, rfl⟩
  cases st with
  | plain =>
      have hstep : nesting.step (.closed depth) c = none := if_neg hc
      rw [quoted, hrest]
      change nesting.run (.closed depth) (c :: _) = none
      rw [Lexer.run, hstep]
      rfl
  | _ => rfl

/-- The text of an object is not the end of the text of another object. -/
theorem eq_nil_of_render_object_eq {a : Bytes} {ms ms' : List (StringLit × Json)} {k : StringLit}
    {v : Json} {c : UInt8} (hk : k.bytes.head? = some c) (hc : c ∉ punctuation)
    (h : render (.object ms) = a ++ render (.object ((k, v) :: ms'))) : a = [] := by
  cases a with
  | nil => rfl
  | cons x a =>
      exfalso
      simp only [render, List.cons_append] at h
      obtain ⟨-, h⟩ := List.cons.inj h
      rw [← List.cons_append, ← List.append_assoc] at h
      have hmembers := (List.append_inj' h rfl).1
      -- before a comma, the members of the first object leave the scanner where it was
      have hrun : nesting.run (.between 0) (renderMembers ms ++ [comma]) = some (.between 0) :=
        run_renderMembers (by decide) [] ms 0
      rw [hmembers, List.append_assoc, List.cons_append] at hrun
      obtain ⟨place, -, hrun⟩ := Lexer.run_append_eq_some hrun
      cases place with
      | between depth =>
          change nesting.run (.between (depth + 1)) (_ ++ [comma]) = _ at hrun
          rw [run_renderMembers (by decide) [] ((k, v) :: ms') (depth + 1)] at hrun
          cases hrun
      | string depth st =>
          obtain ⟨t, ht⟩ := renderMembers_cons k v ms'
          rw [ht, List.append_assoc, run_string_object depth st hk hc] at hrun
          cases hrun
      | closed depth => cases hrun

end Json
