import Sanad.Common.Json.Decode

/-! # Decoding into records

What `json.Unmarshal` stores into the fields of a Go struct. Values of the wrong type are errors, and
`null` leaves a field that is no pointer as it was.
-/

namespace Json

/-- Decode a value into a record that starts out as `zero`: each member goes into its field, if there
is one. -/
def decodeRecord {ι α : Type} (fields : List (Bytes × ι)) (store : ι → Json → α → Option α)
    (zero : α) : Json → Option α
  | .object ms =>
    ms.foldlM (fun r m =>
      match fieldOf fields (unquote m.1) with
      | some f => store f m.2 r
      | none => some r) zero
  | .null => some zero
  | _ => none

/-- A value decoded into a `string` that holds `old`. -/
def decodeText (old : Bytes) : Json → Option Bytes
  | .null => some old
  | .string lit => some (unquote lit)
  | _ => none

/-- A value decoded into a `[]string`. -/
def decodeTexts : Json → Option (List Bytes)
  | .null => some []
  | .array vs => vs.mapM (decodeText [])
  | _ => none

/-- A value decoded into a pointer to a record: `null` is the nil pointer, and what the pointer holds
already is decoded into. -/
def decodePointer {α : Type} (decode : α → Json → Option α) (zero : α) (old : Option α) :
    Json → Option (Option α)
  | .null => some none
  | v => (decode (old.getD zero) v).map some

/-- The value is a string or `null`. -/
def isText : Json → Bool
  | .string _ => true
  | .null => true
  | _ => false

/-- `strconv.ParseInt` of a number as written: a fraction, an exponent or a value outside the range
of `int64` is an error. -/
def parseInt64 (b : Bytes) : Option ℤ :=
  let (sign, digits) : ℤ × Bytes :=
    match b with
    | 0x2d :: ds => (-1, ds)
    | ds => (1, ds)
  let z := sign * decimalValue digits
  if digits.all isDigit ∧ -9223372036854775808 ≤ z ∧ z ≤ 9223372036854775807 then some z else none

/-- A value decoded into an `int64` that holds `old`. -/
def decodeInt64 (old : ℤ) : Json → Option ℤ
  | .null => some old
  | .number lit => parseInt64 lit.bytes
  | _ => none

/-! ## Names up to case -/

/-- Among fields whose names differ by more than case, a member goes to the one it names up to case.
-/
theorem fieldOf_eq_find {ι : Type} {fields : List (Bytes × ι)}
    (h : (fields.map fun f => foldName f.1).Nodup) (key : Bytes) :
    fieldOf fields key =
      (fields.find? fun f => foldName f.1 = foldName key).map Prod.snd := by
  induction fields with
  | nil => rfl
  | cons f fs ih =>
      obtain ⟨hnew, hnodup⟩ := List.nodup_cons.mp h
      rw [fieldOf, List.find?_cons, List.find?_cons]
      by_cases hname : f.1 = key
      · simp [hname]
      · by_cases hfold : foldName f.1 = foldName key
        · -- no other field has that name, not even up to case
          have hnone : (fs.find? fun g => g.1 = key) = none := by
            rw [List.find?_eq_none]
            intro g hg hkey
            refine hnew (List.mem_map.mpr ⟨g, hg, ?_⟩)
            rw [of_decide_eq_true hkey]
            exact hfold.symm
          simp [hname, hfold, hnone]
        · have hrest := ih hnodup
          rw [fieldOf] at hrest
          simpa [hname, hfold] using hrest

/-- The values of the members that have the given name up to case, in order. -/
def variants (name : Bytes) (ms : List (StringLit × Json)) : List Json :=
  (ms.filter fun m => foldName name = foldName (unquote m.1)).map Prod.snd

section

variable {name : Bytes} {m : StringLit × Json} {ms : List (StringLit × Json)}

theorem variants_cons_pos (h : foldName name = foldName (unquote m.1)) :
    variants name (m :: ms) = m.2 :: variants name ms := by
  rw [variants, List.filter_cons_of_pos (by simpa using h)]
  rfl

theorem variants_cons_neg (h : ¬foldName name = foldName (unquote m.1)) :
    variants name (m :: ms) = variants name ms := by
  rw [variants, List.filter_cons_of_neg (by simpa using h)]
  rfl

/-- Where names are exact, a name has no other variants. -/
theorem ExactNames.variants_eq {fields : List Bytes} (h : ExactNames fields ms)
    (hname : name ∈ fields) : variants name ms = (member name ms).toList := by
  induction ms with
  | nil => rfl
  | cons m ms ih =>
      have htail := ih h.tail
      by_cases heq : unquote m.1 = name
      · have hnone := h.member_tail
        rw [heq] at hnone
        rw [variants_cons_pos (by rw [heq]), member_cons_eq heq, htail, hnone]
        rfl
      · have hfold : ¬foldName name = foldName (unquote m.1) := fun hfold =>
          heq (h.exact m List.mem_cons_self name hname hfold)
        rw [variants_cons_neg hfold, member_cons_ne heq, htail]

end

/-! ## One field of a record -/

section

variable {ι α β : Type} {fields : List (Bytes × ι)} {store : ι → Json → α → Option α} {name : Bytes}
  {f : ι}

theorem fieldOf_eq_some_iff (hnames : (fields.map fun f => foldName f.1).Nodup)
    (hfields : (fields.map Prod.snd).Nodup) (hf : (name, f) ∈ fields) (key : Bytes) :
    fieldOf fields key = some f ↔ foldName name = foldName key := by
  rw [fieldOf_eq_find hnames, Option.map_eq_some_iff]
  constructor
  · rintro ⟨g, hfind, hg⟩
    obtain rfl : g = (name, f) :=
      List.inj_on_of_nodup_map hfields (List.mem_of_find?_eq_some hfind) hf hg
    simpa using List.find?_some hfind
  · intro hkey
    cases hfind : fields.find? fun g => foldName g.1 = foldName key with
    | none => simpa [hkey] using List.find?_eq_none.mp hfind _ hf
    | some g =>
        have hg : foldName g.1 = foldName key := by simpa using List.find?_some hfind
        obtain rfl : g = (name, f) := List.inj_on_of_nodup_map hnames
          (List.mem_of_find?_eq_some hfind) hf (hg.trans hkey.symm)
        exact ⟨_, rfl, rfl⟩

/-- A part of a record that one field alone writes is what the variants of its name write, one after
the other. -/
theorem decodeRecord_part (hnames : (fields.map fun f => foldName f.1).Nodup)
    (hfields : (fields.map Prod.snd).Nodup) (hf : (name, f) ∈ fields) (part : α → β)
    (write : Json → β → Option β)
    (hsame : ∀ v r r', store f v r = some r' → write v (part r) = some (part r'))
    (hother : ∀ g v r r', g ≠ f → store g v r = some r' → part r' = part r)
    {zero r : α} {ms : List (StringLit × Json)}
    (h : decodeRecord fields store zero (.object ms) = some r) :
    (variants name ms).foldlM (fun b v => write v b) (part zero) = some (part r) := by
  rw [decodeRecord] at h
  induction ms generalizing zero with
  | nil =>
      cases h
      rfl
  | cons m ms ih =>
      obtain ⟨r₁, hfirst, hrest⟩ := Option.bind_eq_some_iff.mp h
      dsimp only at hfirst
      by_cases hname : foldName name = foldName (unquote m.1)
      · have hfield := (fieldOf_eq_some_iff hnames hfields hf (unquote m.1)).mpr hname
        rw [hfield] at hfirst
        rw [variants_cons_pos hname, List.foldlM_cons, hsame _ _ _ hfirst]
        exact ih hrest
      · have hfield : fieldOf fields (unquote m.1) ≠ some f := fun hfield =>
          hname ((fieldOf_eq_some_iff hnames hfields hf (unquote m.1)).mp hfield)
        have hkeep : part r₁ = part zero := by
          cases hg : fieldOf fields (unquote m.1) with
          | none =>
              rw [hg] at hfirst
              cases hfirst
              rfl
          | some g =>
              rw [hg] at hfirst
              exact hother g m.2 zero r₁ (fun heq => hfield (heq ▸ hg)) hfirst
        rw [variants_cons_neg hname, ← hkeep]
        exact ih hrest

end

/-! ## Records with one field -/

theorem fieldOf_single {ι : Type} (name : Bytes) (f : ι) (key : Bytes) :
    fieldOf [(name, f)] key = if foldName name = foldName key then some f else none := by
  rw [fieldOf]
  by_cases hname : name = key
  · simp [hname]
  · by_cases hfold : foldName name = foldName key
    · simp [hname, hfold]
    · simp [hname, hfold]

/-- A record with one field takes the variants of its name one after the other. -/
theorem decodeRecord_single {α : Type} (name : Bytes) (store : Json → α → Option α) (zero : α)
    (ms : List (StringLit × Json)) :
    decodeRecord [(name, ())] (fun _ => store) zero (.object ms) =
      (variants name ms).foldlM (fun r v => store v r) zero := by
  rw [decodeRecord]
  induction ms generalizing zero with
  | nil => rfl
  | cons m ms ih =>
      rw [List.foldlM_cons, fieldOf_single]
      by_cases hfold : foldName name = foldName (unquote m.1)
      · rw [if_pos hfold, variants_cons_pos hfold, List.foldlM_cons]
        cases store m.2 zero with
        | none => rfl
        | some r => exact ih r
      · rw [if_neg hfold, variants_cons_neg hfold]
        exact ih zero

/-- If each value overwrites the field, the last one counts, provided that all of them decode. -/
theorem foldlM_overwrite {α : Type} (decode : Json → Option α) (zero : α) (vs : List Json) :
    vs.foldlM (fun _ v => decode v) zero =
      if vs.all fun v => (decode v).isSome then (vs.getLast?.map decode).getD (some zero) else none := by
  induction vs generalizing zero with
  | nil => rfl
  | cons v vs ih =>
      rw [List.foldlM_cons, List.all_cons, List.getLast?_cons]
      cases hv : decode v with
      | none => simp
      | some r =>
          show vs.foldlM (fun _ v => decode v) r = _
          rw [ih r]
          cases vs.getLast? <;> simp [hv]

end Json
