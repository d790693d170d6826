import Sanad.Common.Json.Record
import Sanad.Common.Json.RoundTrip

/-! # Records come back

What is decoded from the object that was written for a record: each member goes into the field it was
written for, an `int64` and a string of valid UTF-8 come back as they were, and a string with other
bytes comes back with those replaced.
-/

namespace Json

/-! ## Strings and integers -/

/-- A string after it was written and read. -/
def reread (s : Bytes) : Bytes := unquote (quote s)

theorem reread_eq_self_iff {s : Bytes} : reread s = s ↔ Utf8.valid s = true := by
  constructor
  · intro h
    rw [← h]
    exact valid_unquote _
  · exact unquote_quote

theorem map_reread {s : List Bytes} (h : ∀ t ∈ s, Utf8.valid t = true) : s.map reread = s :=
  (List.map_congr_left fun t ht => reread_eq_self_iff.mpr (h t ht)).trans (List.map_id s)

theorem decodeText_ofString (old s : Bytes) : decodeText old (.ofString s) = some (reread s) := rfl

theorem decodeTexts_strings (s : List Bytes) :
    decodeTexts (.array (s.map .ofString)) = some (s.map reread) := by
  rw [decodeTexts]
  induction s with
  | nil => rfl
  | cons t s ih =>
      rw [List.map_cons, List.mapM_cons, ih]
      rfl

theorem decodeInt64_ofInt {z : ℤ} (hlow : -9223372036854775808 ≤ z) (hhigh : z ≤ 9223372036854775807)
    (old : ℤ) : decodeInt64 old (.ofInt z) = some z := by
  have hdigits : ∀ n, (decimalNat n).all isDigit = true := fun n =>
    List.all_eq_true.mpr (isDigit_decimalNat n)
  rw [ofInt, decodeInt64]
  show parseInt64 (decimalBytes z) = some z
  rw [decimalBytes]
  split
  · have hvalue : -1 * ((decimalValue (decimalNat z.natAbs) : ℕ) : ℤ) = z := by
      rw [decimalValue_decimalNat]
      omega
    rw [parseInt64, hvalue, if_pos ⟨hdigits _, hlow, hhigh⟩]
  · have hvalue : 1 * ((decimalValue (decimalNat z.natAbs) : ℕ) : ℤ) = z := by
      rw [decimalValue_decimalNat]
      omega
    -- a natural number does not start with a minus sign
    have hminus : ∀ ds, decimalNat z.natAbs = 0x2d :: ds → False := by
      intro ds hds
      have hdigit := isDigit_decimalNat z.natAbs 0x2d (by rw [hds]; exact List.mem_cons_self)
      exact absurd hdigit (by decide)
    rw [parseInt64, hvalue, if_pos ⟨hdigits _, hlow, hhigh⟩]
    exact hminus

/-! ## What is written like a valid string -/

/-- What is written for a byte that is no character. -/
theorem quoteRune_of_decodeRune_eq_none {c : UInt8} {b : Bytes}
    (h : Utf8.decodeRune (c :: b) = none) :
    (quoteRune (c :: b)).1 = [backslash, 0x75, 0x66, 0x66, 0x66, 0x64] := by
  rw [quoteRune]
  split
  · next hc => simp [Utf8.decodeRune, hc] at h
  · rw [h]
    rfl

theorem quoteRune_ne_nil (c : UInt8) (b : Bytes) : (quoteRune (c :: b)).1 ≠ [] := by
  cases hdec : Utf8.decodeRune (c :: b) with
  | some p => exact (unquoteRune_quoteRune hdec []).2.1
  | none =>
      rw [quoteRune_of_decodeRune_eq_none hdec]
      exact List.cons_ne_nil _ _

/-- A byte that is no character is written like none, not even like the one it is read back as. -/
theorem decodeRune_ne_none_of_append_eq {c : UInt8} {b b' t t' : Bytes} {r n : ℕ}
    (h : Utf8.decodeRune b' = some (r, n))
    (heq : (quoteRune (c :: b)).1 ++ t = (quoteRune b').1 ++ t') :
    Utf8.decodeRune (c :: b) ≠ none := by
  intro hnone
  obtain ⟨hread, -, -⟩ := unquoteRune_quoteRune h t'
  have hescape : unquoteRune ([backslash, 0x75, 0x66, 0x66, 0x66, 0x64] ++ t) =
      (Utf8.encodeRune 0xfffd, 6) := unquoteRune_unicode rfl (by decide)
  rw [← heq, quoteRune_of_decodeRune_eq_none hnone, hescape, Prod.mk.injEq] at hread
  obtain ⟨htake, hlen⟩ := hread
  -- the character is the replacement character, which is written as it is
  have hrune : Utf8.decodeRune b' = some (0xfffd, 3) := by
    rw [← List.take_append_drop n b', ← htake]
    exact Utf8.decodeRune_encodeRune isScalar_replacement _
  cases b' with
  | nil => cases h
  | cons d b' =>
      rw [h, Option.some.injEq, Prod.mk.injEq] at hrune
      obtain ⟨rfl, rfl⟩ := hrune
      rw [quoteRune] at hlen
      split at hlen
      · next hd => simp [Utf8.decodeRune, hd] at h
      · rw [h] at hlen
        simp at hlen
        omega

/-- What is written like a string of valid UTF-8 is that string. -/
theorem eq_of_quote_eq {s s' : Bytes} (hs' : Utf8.valid s' = true) (h : quote s = quote s') :
    s = s' := by
  have hvalid : ∀ s, Bytes.rewrite quoteRune s = Bytes.rewrite quoteRune s' →
      Utf8.valid s = true := by
    refine Utf8.valid_induction (P := fun s' => ∀ s, Bytes.rewrite quoteRune s =
      Bytes.rewrite quoteRune s' → Utf8.valid s = true) ?_ ?_ hs'
    · intro s hs
      cases s with
      | nil => rfl
      | cons c s =>
          rw [Bytes.rewrite_cons] at hs
          exact absurd (List.append_eq_nil_iff.mp hs).1 (quoteRune_ne_nil c s)
    · intro b r n hdec ih s hs
      cases b with
      | nil => cases hdec
      | cons d b =>
      cases s with
      | nil =>
          rw [Bytes.rewrite_cons] at hs
          exact absurd (List.append_eq_nil_iff.mp hs.symm).1 (quoteRune_ne_nil d b)
      | cons c s =>
          rw [Bytes.rewrite_cons, Bytes.rewrite_cons] at hs
          obtain ⟨⟨r', n'⟩, hdec'⟩ :=
            Option.ne_none_iff_exists'.mp (decodeRune_ne_none_of_append_eq hdec hs)
          -- both characters are read off the front of one text
          obtain ⟨hread, -, hn⟩ :=
            unquoteRune_quoteRune hdec (Bytes.rewrite quoteRune (b.drop ((quoteRune (d :: b)).2 - 1)))
          obtain ⟨hread', -, hn'⟩ :=
            unquoteRune_quoteRune hdec' (Bytes.rewrite quoteRune (s.drop ((quoteRune (c :: s)).2 - 1)))
          rw [← hs, hread', Prod.mk.injEq] at hread
          have hrest := (List.append_inj hs hread.2).2
          have hdrop : ∀ {x : UInt8} {y : Bytes} {m : ℕ}, 0 < m → y.drop (m - 1) = (x :: y).drop m := by
            intro x y m hm
            obtain ⟨k, rfl⟩ : ∃ k, m = k + 1 := ⟨m - 1, by omega⟩
            rfl
          rw [hn, hn', hdrop (Utf8.decodeRune_spec hdec).1, hdrop (Utf8.decodeRune_spec hdec').1]
            at hrest
          rw [Utf8.valid_of_decodeRune hdec']
          exact ih _ hrest
  exact quote_injective (hvalid s (congrArg (fun lit => lit.bytes) h)) hs' h

theorem valid_of_ofString_eq {s s' : Bytes} (hs' : Utf8.valid s' = true)
    (h : ofString s = ofString s') : Utf8.valid s = true := by
  rwa [eq_of_quote_eq hs' (Json.string.inj h)]

/-! ## Members -/

section

variable {ι α : Type} {fields : List (Bytes × ι)} {store : ι → Json → α → Option α}

theorem decodeRecord_nil (r : α) : decodeRecord fields store r (.ofFields []) = some r := rfl

/-- The members of a record are stored one after the other. -/
theorem decodeRecord_append (r : α) (ms ns : List (String × Json)) :
    decodeRecord fields store r (.ofFields (ms ++ ns)) =
      (decodeRecord fields store r (.ofFields ms)).bind fun r' =>
        decodeRecord fields store r' (.ofFields ns) := by
  simp only [ofFields, decodeRecord, List.map_append, List.foldlM_append]
  rfl

theorem decodeRecord_field {name : String} {f : ι}
    (h : fieldOf fields (reread (Bytes.ascii name)) = some f) (r : α) (v : Json) :
    decodeRecord fields store r (.ofFields [(name, v)]) = store f v r := by
  rw [reread] at h
  simp [ofFields, decodeRecord, h]

theorem decodeRecord_cons {name : String} {f : ι}
    (h : fieldOf fields (reread (Bytes.ascii name)) = some f) (r : α) (v : Json)
    (ms : List (String × Json)) :
    decodeRecord fields store r (.ofFields ((name, v) :: ms)) =
      (store f v r).bind fun r' => decodeRecord fields store r' (.ofFields ms) := by
  rw [← List.singleton_append, decodeRecord_append, decodeRecord_field h]

end

/-! ## Nesting -/

theorem depth_array_le {vs : List Json} {n : ℕ} (h : ∀ v ∈ vs, v.depth ≤ n) :
    (Json.array vs).depth ≤ n + 1 := by
  rw [depth, Nat.add_le_add_iff_right]
  induction vs with
  | nil => exact Nat.zero_le n
  | cons v vs ih =>
      rw [List.forall_mem_cons] at h
      exact Nat.max_le.mpr ⟨h.1, ih h.2⟩

theorem depth_object_le {ms : List (StringLit × Json)} {n : ℕ} (h : ∀ m ∈ ms, m.2.depth ≤ n) :
    (Json.object ms).depth ≤ n + 1 := by
  rw [depth, Nat.add_le_add_iff_right]
  induction ms with
  | nil => exact Nat.zero_le n
  | cons m ms ih =>
      obtain ⟨k, v⟩ := m
      rw [List.forall_mem_cons] at h
      exact Nat.max_le.mpr ⟨h.1, ih h.2⟩

theorem depth_ofFields_le {ms : List (String × Json)} {n : ℕ} (h : ∀ m ∈ ms, m.2.depth ≤ n) :
    (ofFields ms).depth ≤ n + 1 := by
  refine depth_object_le fun m hm => ?_
  obtain ⟨p, hp, rfl⟩ := List.mem_map.mp hm
  exact h p hp

theorem depth_strings_le (s : List Bytes) : (Json.array (s.map .ofString)).depth ≤ 1 := by
  refine depth_array_le fun v hv => ?_
  obtain ⟨t, -, rfl⟩ := List.mem_map.mp hv
  exact Nat.le_refl 0

theorem unmarshal_render {v : Json} (h : v.depth ≤ maxNestingDepth) :
    unmarshal (render v) = some v := by
  rw [unmarshal, parse_render]
  exact if_pos h

end Json
