import Sanad.Common.Lexer

/-! # JSON syntax

JSON values with their literals as written: a number and a string keep the bytes between their
delimiters, so a value determines its text up to whitespace. `Text` is the grammar of RFC 8259 over
bytes, which says nothing about the encoding of the characters of a string; `render` is the compact
text of a value.
-/

namespace Json

/-! ## Punctuation -/

abbrev quoteMark : UInt8 := 0x22
abbrev backslash : UInt8 := 0x5c
abbrev comma : UInt8 := 0x2c
abbrev colon : UInt8 := 0x3a
abbrev openBracket : UInt8 := 0x5b
abbrev closeBracket : UInt8 := 0x5d
abbrev openBrace : UInt8 := 0x7b
abbrev closeBrace : UInt8 := 0x7d

/-- Whitespace between tokens: space, tab, line feed, carriage return. -/
def isSpace (c : UInt8) : Bool := c = 0x20 || c = 0x09 || c = 0x0a || c = 0x0d

def isDigit (c : UInt8) : Bool := 0x30 ≤ c && c ≤ 0x39

def isHex (c : UInt8) : Bool :=
  isDigit c || (0x61 ≤ c && c ≤ 0x66) || (0x41 ≤ c && c ≤ 0x46)

/-! ## Literals -/

/-- Where a scanner stands inside a string. -/
inductive StringState where
  /-- Between characters. -/
  | plain
  /-- After a backslash. -/
  | esc
  /-- After a backslash and the letter u, and then after one, two and three hexadecimal digits. -/
  | u
  | u1
  | u12
  | u123
  deriving DecidableEq, Repr

/-- The letters that may follow a backslash, besides u. -/
def escapes : Bytes := Bytes.ascii "bfnrt\\/\""

/-- Between the quotes: any byte but a control character, with the escapes well formed. -/
def stringLexer : Lexer StringState where
  step
    | .plain, c =>
      if c = quoteMark then none
      else if c = backslash then some .esc
      else if c < 0x20 then none
      else some .plain
    | .esc, c => if c ∈ escapes then some .plain else if c = 0x75 then some .u else none
    | .u, c => if isHex c then some .u1 else none
    | .u1, c => if isHex c then some .u12 else none
    | .u12, c => if isHex c then some .u123 else none
    | .u123, c => if isHex c then some .plain else none
  final s := s = .plain

/-- Where a scanner stands inside a number. -/
inductive NumberState where
  | start
  /-- After the minus sign. -/
  | neg
  /-- After a leading zero. -/
  | zero
  /-- Within an integer part that does not start with zero. -/
  | int
  /-- After the decimal point. -/
  | dot
  /-- Within the fraction. -/
  | frac
  /-- After the exponent mark, and after its sign. -/
  | e
  | eSign
  /-- Within the exponent. -/
  | exp
  deriving DecidableEq, Repr

/-- The JSON number grammar. -/
def numberLexer : Lexer NumberState where
  step
    | .start, c =>
      if c = 0x2d then some .neg else if c = 0x30 then some .zero
      else if isDigit c then some .int else none
    | .neg, c => if c = 0x30 then some .zero else if isDigit c then some .int else none
    | .zero, c =>
      if c = 0x2e then some .dot else if c = 0x65 ∨ c = 0x45 then some .e else none
    | .int, c =>
      if isDigit c then some .int
      else if c = 0x2e then some .dot else if c = 0x65 ∨ c = 0x45 then some .e else none
    | .dot, c => if isDigit c then some .frac else none
    | .frac, c =>
      if isDigit c then some .frac else if c = 0x65 ∨ c = 0x45 then some .e else none
    | .e, c =>
      if c = 0x2b ∨ c = 0x2d then some .eSign else if isDigit c then some .exp else none
    | .eSign, c => if isDigit c then some .exp else none
    | .exp, c => if isDigit c then some .exp else none
  final s := s = .zero || s = .int || s = .frac || s = .exp

/-- The bytes between the quotes of a string, escapes as written. -/
abbrev StringLit := stringLexer.Token .plain

/-- A number as written. -/
abbrev NumberLit := numberLexer.Token .start

end Json

/-- A JSON value with its literals as written. -/
inductive Json where
  | null
  | bool (b : Bool)
  | number (lit : Json.NumberLit)
  | string (lit : Json.StringLit)
  | array (elems : List Json)
  | object (members : List (Json.StringLit × Json))

namespace Json

/-- How deeply arrays and objects are nested. -/
def depth : Json → ℕ
  | .array vs => depthElems vs + 1
  | .object ms => depthMembers ms + 1
  | _ => 0
where
  depthElems : List Json → ℕ
    | [] => 0
    | v :: vs => max (depth v) (depthElems vs)
  depthMembers : List (StringLit × Json) → ℕ
    | [] => 0
    | (_, v) :: ms => max (depth v) (depthMembers ms)

/-! ## Texts -/

/-- A string literal in its quotes. -/
def quoted (s : StringLit) : Bytes := quoteMark :: (s.bytes ++ [quoteMark])

/-- Only whitespace. -/
def IsSpaces (w : Bytes) : Prop := ∀ c ∈ w, isSpace c = true

/-- The text of the two boolean literals. -/
def boolText : Bool → Bytes
  | true => Bytes.ascii "true"
  | false => Bytes.ascii "false"

mutual

/-- A text of a value, without whitespace around it. -/
def Text : Json → Bytes → Prop
  | .null, b => b = Bytes.ascii "null"
  | .bool x, b => b = boolText x
  | .number lit, b => b = lit.bytes
  | .string lit, b => b = quoted lit
  | .array vs, b => ∃ t, b = openBracket :: (t ++ [closeBracket]) ∧ ElemsText vs t
  | .object ms, b => ∃ t, b = openBrace :: (t ++ [closeBrace]) ∧ MembersText ms t

/-- A text of the elements of an array, between its brackets. -/
def ElemsText : List Json → Bytes → Prop
  | [], t => IsSpaces t
  | v :: vs, t =>
    ∃ w₁ t₁ w₂, IsSpaces w₁ ∧ Text v t₁ ∧ IsSpaces w₂ ∧
      ((vs = [] ∧ t = w₁ ++ (t₁ ++ w₂)) ∨
        (vs ≠ [] ∧ ∃ t₂, t = w₁ ++ (t₁ ++ (w₂ ++ comma :: t₂)) ∧ ElemsText vs t₂))

/-- A text of the members of an object, between its braces. -/
def MembersText : List (StringLit × Json) → Bytes → Prop
  | [], t => IsSpaces t
  | (k, v) :: ms, t =>
    ∃ w₁ w₂ w₃ t₁ w₄, IsSpaces w₁ ∧ IsSpaces w₂ ∧ IsSpaces w₃ ∧ Text v t₁ ∧ IsSpaces w₄ ∧
      ((ms = [] ∧ t = w₁ ++ (quoted k ++ (w₂ ++ colon :: (w₃ ++ (t₁ ++ w₄))))) ∨
        (ms ≠ [] ∧ ∃ t₂,
          t = w₁ ++ (quoted k ++ (w₂ ++ colon :: (w₃ ++ (t₁ ++ (w₄ ++ comma :: t₂))))) ∧
          MembersText ms t₂))

end

/-- A JSON document: one value with whitespace around it. -/
def Document (v : Json) (b : Bytes) : Prop :=
  ∃ w₁ t w₂, b = w₁ ++ (t ++ w₂) ∧ IsSpaces w₁ ∧ Text v t ∧ IsSpaces w₂

mutual

/-- The text of a value without whitespace. -/
def render : Json → Bytes
  | .null => Bytes.ascii "null"
  | .bool x => boolText x
  | .number lit => lit.bytes
  | .string lit => quoted lit
  | .array vs => openBracket :: (renderElems vs ++ [closeBracket])
  | .object ms => openBrace :: (renderMembers ms ++ [closeBrace])

def renderElems : List Json → Bytes
  | [] => []
  | [v] => render v
  | v :: v' :: vs => render v ++ comma :: renderElems (v' :: vs)

def renderMembers : List (StringLit × Json) → Bytes
  | [] => []
  | [(k, v)] => quoted k ++ colon :: render v
  | (k, v) :: m :: ms => quoted k ++ colon :: (render v ++ comma :: renderMembers (m :: ms))

end

theorem isSpaces_nil : IsSpaces [] := by
  intro c hc
  cases hc

mutual

/-- The compact text is a text of its value. -/
theorem text_render : ∀ v : Json, Text v (render v)
  | .null => by rw [Text, render]
  | .bool x => by rw [Text, render]
  | .number lit => by rw [Text, render]
  | .string lit => by rw [Text, render]
  | .array vs => by
      rw [Text, render]
      exact ⟨_, rfl, elemsText_render vs⟩
  | .object ms => by
      rw [Text, render]
      exact ⟨_, rfl, membersText_render ms⟩

theorem elemsText_render : ∀ vs : List Json, ElemsText vs (renderElems vs)
  | [] => by
      rw [ElemsText, renderElems]
      exact isSpaces_nil
  | [v] => by
      rw [ElemsText, renderElems]
      exact ⟨[], render v, [], isSpaces_nil, text_render v, isSpaces_nil, .inl ⟨rfl, by simp⟩⟩
  | v :: v' :: vs => by
      rw [ElemsText, renderElems]
      exact ⟨[], render v, [], isSpaces_nil, text_render v, isSpaces_nil,
        .inr ⟨by simp, _, rfl, elemsText_render (v' :: vs)⟩⟩

theorem membersText_render : ∀ ms : List (StringLit × Json), MembersText ms (renderMembers ms)
  | [] => by
      rw [MembersText, renderMembers]
      exact isSpaces_nil
  | [(k, v)] => by
      rw [MembersText, renderMembers]
      exact ⟨[], [], [], render v, [], isSpaces_nil, isSpaces_nil, isSpaces_nil, text_render v,
        isSpaces_nil, .inl ⟨rfl, by simp⟩⟩
  | (k, v) :: m :: ms => by
      rw [MembersText, renderMembers]
      exact ⟨[], [], [], render v, [], isSpaces_nil, isSpaces_nil, isSpaces_nil, text_render v,
        isSpaces_nil, .inr ⟨by simp, _, rfl, membersText_render (m :: ms)⟩⟩

end

end Json
