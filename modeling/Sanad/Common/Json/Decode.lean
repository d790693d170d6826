import Sanad.Common.Json.Parser
import Sanad.Common.Json.Strings

/-! # Decoding JSON into records

What Go's `encoding/json` does with a document that is decoded into a struct: the whole text is
checked first, nesting included; a member goes to the field of its name, or else to a field whose
name differs in case only; of several members for one field the last one counts.
-/

namespace Json

/-! ## Documents -/

/-- `maxNestingDepth` of `encoding/json` -/
def maxNestingDepth : ℕ := 10000

/-- The value that `json.Unmarshal` decodes: none unless the text is a JSON document that is not
nested too deeply. -/
def unmarshal (b : Bytes) : Option Json :=
  match parse b with
  | some v => if v.depth ≤ maxNestingDepth then some v else none
  | none => none

theorem unmarshal_of_document {v : Json} {b : Bytes} (h : Document v b) :
    unmarshal b = if v.depth ≤ maxNestingDepth then some v else none := by
  rw [unmarshal, parse_of_document h]

/-! ## White space around a document -/

theorem find_space {c : UInt8} (h : isSpace c = true) (b : Bytes) :
    (Utf8.spaces.find? fun e => e.isPrefixOf (c :: b)) = some [c] ∧
      ((Utf8.spaces.map List.reverse).find? fun e => e.isPrefixOf (c :: b)) = some [c] := by
  simp only [isSpace, Bool.or_eq_true, decide_eq_true_eq] at h
  rcases h with ((rfl | rfl) | rfl) | rfl <;> exact ⟨rfl, rfl⟩

/-- No encoding of white space starts as a value does. -/
theorem find_start {c : UInt8} (h : isStart c = true) (b : Bytes) :
    (Utf8.spaces.find? fun e => e.isPrefixOf (c :: b)) = none := by
  have hheads : ∀ e ∈ Utf8.spaces, ∃ d t, e = d :: t ∧ isStart d = false := by
    intro e he
    have hall : ∀ e ∈ Utf8.spaces, (e.head?.map isStart) = some false := by decide
    have := hall e he
    cases e with
    | nil => cases this
    | cons d t => exact ⟨d, t, rfl, Option.some.inj this⟩
  rw [List.find?_eq_none]
  intro e he hprefix
  obtain ⟨d, t, rfl, hd⟩ := hheads e he
  rw [(List.cons_prefix_cons.mp (List.isPrefixOf_iff_prefix.mp hprefix)).1, h] at hd
  cases hd

/-- `bytes.TrimSpace` first drops the white space before a value. -/
theorem trimStart_text {v : Json} {w t : Bytes} (hw : IsSpaces w) (ht : Text v t) (b : Bytes) :
    Utf8.trimStart Utf8.spaces (w ++ (t ++ b)).length (w ++ (t ++ b)) = t ++ b := by
  obtain ⟨c, t, rfl, hc⟩ := text_head ht
  refine Utf8.trimStart_append (fun d hd u => (find_space (hw d hd) u).1) (find_start hc _) ?_
  rw [List.length_append]
  exact Nat.le_add_right _ _

theorem trimSpace_text_prefix {v : Json} {w₁ t w₂ : Bytes} (hw₁ : IsSpaces w₁) (ht : Text v t) :
    Utf8.trimSpace (w₁ ++ (t ++ w₂)) <+: t ++ w₂ := by
  simp only [Utf8.trimSpace]
  rw [trimStart_text hw₁ ht, ← List.reverse_suffix, List.reverse_reverse]
  exact Utf8.trimStart_suffix _ _ _

/-- The white space after an array or an object is dropped too. -/
theorem trimSpace_text {v : Json} {w₁ t w₂ : Bytes} {c : UInt8} (hw₁ : IsSpaces w₁)
    (ht : Text v (t ++ [c])) (hc : c = closeBracket ∨ c = closeBrace) (hw₂ : IsSpaces w₂) :
    Utf8.trimSpace (w₁ ++ (t ++ [c] ++ w₂)) = t ++ [c] := by
  have hclose : ∀ u, ((Utf8.spaces.map List.reverse).find? fun e =>
      e.isPrefixOf (c :: u)) = none := by
    intro u
    rcases hc with rfl | rfl <;> rfl
  have hend := Utf8.trimStart_append (w := w₂.reverse) (b := c :: t.reverse)
    (fun d hd u => (find_space (hw₂ d (List.mem_reverse.mp hd)) u).2) (hclose _)
    (show w₂.reverse.length ≤ (t ++ [c] ++ w₂).length by
      rw [List.length_reverse, List.length_append]
      exact Nat.le_add_left _ _)
  have hrev : (t ++ [c] ++ w₂).reverse = w₂.reverse ++ c :: t.reverse := by simp
  simp only [Utf8.trimSpace]
  rw [trimStart_text hw₁ ht, hrev, hend]
  simp

/-- The text of a value that is neither an array nor an object starts with neither bracket. -/
theorem scalar_head {v : Json} {t : Bytes} (ht : Text v t) (harray : ∀ vs, v ≠ .array vs)
    (hobject : ∀ ms, v ≠ .object ms) :
    ∃ c t', t = c :: t' ∧ c ≠ openBrace ∧ c ≠ openBracket := by
  cases v with
  | null =>
      rw [Text] at ht
      exact ⟨_, _, ht, by decide, by decide⟩
  | bool x =>
      rw [Text] at ht
      cases x
      · exact ⟨_, _, ht, by decide, by decide⟩
      · exact ⟨_, _, ht, by decide, by decide⟩
  | number lit =>
      rw [Text] at ht
      obtain ⟨c, t', hlit, hc⟩ := number_head lit
      refine ⟨c, t', ht.trans hlit, ?_, ?_⟩
      · rintro rfl
        exact absurd hc (by decide)
      · rintro rfl
        exact absurd hc (by decide)
  | string lit =>
      rw [Text] at ht
      exact ⟨_, _, ht, by decide, by decide⟩
  | array vs => exact absurd rfl (harray vs)
  | object ms => exact absurd rfl (hobject ms)

/-! A program that tells objects from arrays by the first byte of the trimmed body, and then decodes
it, decodes the value of the body. -/

theorem trimSpace_object {ms : List (StringLit × Json)} {body : Bytes}
    (hdoc : Document (.object ms) body) :
    ∃ t, Utf8.trimSpace body = openBrace :: t ∧ unmarshal (openBrace :: t) =
      if (Json.object ms).depth ≤ maxNestingDepth then some (.object ms) else none := by
  obtain ⟨w₁, t, w₂, rfl, hw₁, ht, hw₂⟩ := hdoc
  have hvalue : unmarshal t = if (Json.object ms).depth ≤ maxNestingDepth then some (.object ms) else none :=
    unmarshal_of_document ⟨[], t, [], by simp, isSpaces_nil, ht, isSpaces_nil⟩
  have hform := ht
  rw [Text] at hform
  obtain ⟨u, rfl, -⟩ := hform
  exact ⟨u ++ [closeBrace], trimSpace_text hw₁ (t := openBrace :: u) ht (.inr rfl) hw₂, hvalue⟩

theorem trimSpace_array {vs : List Json} {body : Bytes} (hdoc : Document (.array vs) body) :
    ∃ t, Utf8.trimSpace body = openBracket :: t ∧ unmarshal (openBracket :: t) =
      if (Json.array vs).depth ≤ maxNestingDepth then some (.array vs) else none := by
  obtain ⟨w₁, t, w₂, rfl, hw₁, ht, hw₂⟩ := hdoc
  have hvalue : unmarshal t = if (Json.array vs).depth ≤ maxNestingDepth then some (.array vs) else none :=
    unmarshal_of_document ⟨[], t, [], by simp, isSpaces_nil, ht, isSpaces_nil⟩
  have hform := ht
  rw [Text] at hform
  obtain ⟨u, rfl, -⟩ := hform
  exact ⟨u ++ [closeBracket], trimSpace_text hw₁ (t := openBracket :: u) ht (.inl rfl) hw₂, hvalue⟩

theorem trimSpace_scalar {v : Json} {body : Bytes} (hdoc : Document v body)
    (harray : ∀ vs, v ≠ .array vs) (hobject : ∀ ms, v ≠ .object ms) {c : UInt8} {t : Bytes}
    (h : Utf8.trimSpace body = c :: t) : c ≠ openBrace ∧ c ≠ openBracket := by
  obtain ⟨w₁, u, w₂, rfl, hw₁, hu, -⟩ := hdoc
  have hprefix : Utf8.trimSpace (w₁ ++ (u ++ w₂)) <+: u ++ w₂ := trimSpace_text_prefix hw₁ hu
  obtain ⟨d, u, rfl, hbrace, hbracket⟩ := scalar_head hu harray hobject
  rw [h] at hprefix
  rw [(List.cons_prefix_cons.mp hprefix).1]
  exact ⟨hbrace, hbracket⟩

/-! ## Members -/

/-- What `foldName` writes for the character at the front of a name, and the number of its bytes.
Names are compared with ASCII names only, so of the characters outside ASCII it changes just the two
that have an ASCII letter as a case variant: the long s and the Kelvin sign. -/
def foldRune : Bytes → Bytes × ℕ
  | 0xc5 :: 0xbf :: _ => ([0x53], 2)
  | 0xe2 :: 0x84 :: 0xaa :: _ => ([0x4b], 3)
  | c :: _ => (if 0x61 ≤ c ∧ c ≤ 0x7a then [c - 0x20] else [c], 1)
  | [] => ([], 1)

/-- A member name up to case. -/
def foldName (name : Bytes) : Bytes := Bytes.rewrite foldRune name

/-- The field a member is decoded into: the one of its name, or else the first whose name differs
from it in case only. -/
def fieldOf {ι : Type} (fields : List (Bytes × ι)) (key : Bytes) : Option ι :=
  match fields.find? fun f => f.1 = key with
  | some f => some f.2
  | none => (fields.find? fun f => foldName f.1 = foldName key).map Prod.snd

/-- The first member of the given name. -/
def member (name : Bytes) (ms : List (StringLit × Json)) : Option Json :=
  (ms.find? fun m => unquote m.1 = name).map Prod.snd

/-- What a member decoded into a `*string` gives: `null` the nil pointer, and an error for any value
that is not a string. -/
def decodeString : Json → Option (Option Bytes)
  | .null => some none
  | .string lit => some (some (unquote lit))
  | _ => none

/-- No two members have one name, and a name that differs from one of `fields` in case only does not
differ from it at all. -/
structure ExactNames (fields : List Bytes) (ms : List (StringLit × Json)) : Prop where
  nodup : (ms.map fun m => unquote m.1).Nodup
  exact : ∀ m ∈ ms, ∀ f ∈ fields, foldName f = foldName (unquote m.1) → unquote m.1 = f

instance (fields : List Bytes) (ms : List (StringLit × Json)) : Decidable (ExactNames fields ms) :=
  decidable_of_iff ((ms.map fun m => unquote m.1).Nodup ∧
      ∀ m ∈ ms, ∀ f ∈ fields, foldName f = foldName (unquote m.1) → unquote m.1 = f)
    ⟨fun h => ⟨h.1, h.2⟩, fun h => ⟨h.nodup, h.exact⟩⟩

mutual

/-- The objects within a value, itself included. -/
def objects : Json → List (List (StringLit × Json))
  | .array vs => objectsElems vs
  | .object ms => ms :: objectsMembers ms
  | _ => []

def objectsElems : List Json → List (List (StringLit × Json))
  | [] => []
  | v :: vs => objects v ++ objectsElems vs

def objectsMembers : List (StringLit × Json) → List (List (StringLit × Json))
  | [] => []
  | (_, v) :: ms => objects v ++ objectsMembers ms

end

/-- No object within the value repeats a member name. -/
def NoRepeats (v : Json) : Prop := ∀ ms ∈ objects v, (ms.map fun m => unquote m.1).Nodup

instance (v : Json) : Decidable (NoRepeats v) :=
  inferInstanceAs (Decidable (∀ ms ∈ objects v, (ms.map fun m => unquote m.1).Nodup))

theorem objects_subset_of_mem_elems {v : Json} {vs : List Json} (h : v ∈ vs) :
    objects v ⊆ objectsElems vs := by
  induction vs with
  | nil => cases h
  | cons v' vs ih =>
      rw [objectsElems]
      rcases List.mem_cons.mp h with rfl | h
      · exact List.subset_append_left _ _
      · exact fun ms hms => List.mem_append_right _ (ih h hms)

theorem objects_subset_of_mem_members {m : StringLit × Json} {ms : List (StringLit × Json)}
    (h : m ∈ ms) : objects m.2 ⊆ objectsMembers ms := by
  induction ms with
  | nil => cases h
  | cons m' ms ih =>
      rw [objectsMembers]
      rcases List.mem_cons.mp h with rfl | h
      · exact List.subset_append_left _ _
      · exact fun ms hms => List.mem_append_right _ (ih h hms)

theorem NoRepeats.of_mem_array {v : Json} {vs : List Json} (h : NoRepeats (.array vs)) (hv : v ∈ vs) :
    NoRepeats v := by
  intro ms hms
  refine h ms ?_
  rw [objects]
  exact objects_subset_of_mem_elems hv hms

theorem NoRepeats.of_mem_object {m : StringLit × Json} {ms : List (StringLit × Json)}
    (h : NoRepeats (.object ms)) (hm : m ∈ ms) : NoRepeats m.2 := by
  intro ms' hms'
  refine h ms' ?_
  rw [objects]
  exact List.mem_cons_of_mem _ (objects_subset_of_mem_members hm hms')

theorem NoRepeats.nodup {ms : List (StringLit × Json)} (h : NoRepeats (.object ms)) :
    (ms.map fun m => unquote m.1).Nodup := by
  refine h ms ?_
  rw [objects]
  exact List.mem_cons_self

section Member

variable {fields : List Bytes} {m : StringLit × Json} {ms : List (StringLit × Json)} {name : Bytes}

theorem ExactNames.mono {fields' : List Bytes} (h : ExactNames fields ms) (hsub : fields' ⊆ fields) :
    ExactNames fields' ms where
  nodup := h.nodup
  exact := fun m hm f hf => h.exact m hm f (hsub hf)

theorem ExactNames.tail (h : ExactNames fields (m :: ms)) : ExactNames fields ms where
  nodup := (List.nodup_cons.mp h.nodup).2
  exact := fun m' hm' => h.exact m' (List.mem_cons_of_mem m hm')

theorem member_cons_eq (h : unquote m.1 = name) : member name (m :: ms) = some m.2 := by
  simp [member, h]

theorem member_cons_ne (h : unquote m.1 ≠ name) : member name (m :: ms) = member name ms := by
  simp [member, h]

/-- The name of the first member does not come again. -/
theorem ExactNames.member_tail (h : ExactNames fields (m :: ms)) : member (unquote m.1) ms = none := by
  have hnot := (List.nodup_cons.mp h.nodup).1
  rw [member, Option.map_eq_none_iff, List.find?_eq_none]
  intro m' hm' heq
  exact hnot (List.mem_map.mpr ⟨m', hm', of_decide_eq_true heq⟩)

theorem mem_of_member {v : Json} (h : member name ms = some v) : ∃ m ∈ ms, m.2 = v := by
  obtain ⟨m, hm, rfl⟩ := Option.map_eq_some_iff.mp h
  exact ⟨m, List.mem_of_find?_eq_some hm, rfl⟩

theorem NoRepeats.of_member {v : Json} (h : NoRepeats (.object ms)) (hv : member name ms = some v) :
    NoRepeats v := by
  obtain ⟨m, hm, rfl⟩ := mem_of_member hv
  exact h.of_mem_object hm

end Member

end Json
