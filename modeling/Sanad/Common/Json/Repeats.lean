import Mathlib.Data.List.DropRight
import Sanad.Common.Json.Equality
import Sanad.Common.Json.Record

/-! # Repeated members

What `encoding/json` makes of members that come several times. With `DisallowUnknownFields`, a member
without a field is an error, and nothing else changes. Objects that are decoded into the same record or
the same map are merged: the result is the one for the members of all of them in a row. `null` empties
a map and drops what a pointer points to, so only the objects after the last `null` count
(`sinceNull`). A key of a map, and a field that holds a list, has the value that comes last.
-/

namespace Json

/-- The members of an object. -/
def members : Json → List (StringLit × Json)
  | .object ms => ms
  | _ => []

/-- The elements of an array. -/
def elements : Json → List Json
  | .array vs => vs
  | _ => []

def isNull : Json → Bool
  | .null => true
  | _ => false

/-- The values after the last `null`. -/
def sinceNull (vs : List Json) : List Json := vs.rtakeWhile fun v => !v.isNull

/-- The values of a key of an object, in order. -/
def valuesAt (key : Bytes) (ms : List (StringLit × Json)) : List Json :=
  (ms.filter fun m => unquote m.1 = key).map Prod.snd

/-- The values of a field of any of the objects, in order. -/
def fieldValues (name : Bytes) (vs : List Json) : List Json := variants name (vs.flatMap members)

/-- The string that a value stands for in a list of strings. -/
def text : Json → Bytes
  | .string lit => unquote lit
  | _ => []

/-- The strings of an array. -/
def strings (v : Json) : List Bytes :=
  (elements v).filterMap fun
    | .string lit => some (unquote lit)
    | _ => none

theorem mem_map_text_of_mem_strings {v : Json} {s : Bytes} (h : s ∈ strings v) :
    s ∈ (elements v).map text := by
  obtain ⟨w, hw, hs⟩ := List.mem_filterMap.mp h
  refine List.mem_map.mpr ⟨w, hw, ?_⟩
  cases w with
  | string lit => exact Option.some.inj hs
  | _ => cases hs

/-- In a list of strings, any other value stands for the empty string. -/
theorem mem_strings_of_mem_map_text {v : Json} {s : Bytes} (hs : s ≠ [])
    (h : s ∈ (elements v).map text) : s ∈ strings v := by
  obtain ⟨w, hw, rfl⟩ := List.mem_map.mp h
  refine List.mem_filterMap.mpr ⟨w, hw, ?_⟩
  cases w with
  | string lit => rfl
  | _ => exact absurd rfl hs

/-! ## Decoding -/

section

variable {ι α : Type} (fields : List (Bytes × ι)) (store : ι → Json → α → Option α)

/-- Store one member, which has to have a field. -/
def storeMember (r : α) (m : StringLit × Json) : Option α :=
  (fieldOf fields (unquote m.1)).bind fun f => store f m.2 r

/-- A value decoded into a record that holds `old`, with `DisallowUnknownFields`. -/
def decodeStrict (old : α) : Json → Option α
  | .object ms => ms.foldlM (storeMember fields store) old
  | .null => some old
  | _ => none

/-- Set a key of a map to a value, which is decoded into a new element. -/
def storeKey (decode : Json → Option α) (m : List (Bytes × α)) (e : StringLit × Json) :
    Option (List (Bytes × α)) :=
  (decode e.2).map fun a => setKey (unquote e.1) a m

/-- A value decoded into a map that holds `old`. -/
def decodeMap (decode : Json → Option α) (old : List (Bytes × α)) : Json → Option (List (Bytes × α))
  | .object ms => ms.foldlM (storeKey decode) old
  | .null => some []
  | _ => none

end

section

variable {ι α : Type} {fields : List (Bytes × ι)} {store : ι → Json → α → Option α}

/-- Where the strict decoder succeeds, the lenient one gives the same record. -/
theorem decodeRecord_of_decodeStrict {zero r : α} {v : Json}
    (h : decodeStrict fields store zero v = some r) : decodeRecord fields store zero v = some r := by
  cases v with
  | null => exact h
  | object ms =>
      rw [decodeStrict] at h
      rw [decodeRecord]
      induction ms generalizing zero with
      | nil => exact h
      | cons m ms ih =>
          rw [List.foldlM_cons] at h ⊢
          obtain ⟨r₁, hfirst, hrest⟩ := Option.bind_eq_some_iff.mp h
          obtain ⟨f, hf, hstore⟩ := Option.bind_eq_some_iff.mp hfirst
          rw [hf]
          exact Option.bind_eq_some_iff.mpr ⟨r₁, hstore, ih hrest⟩
  | _ => cases h

/-- What an object or a `null` stores into a record, its members store. -/
theorem foldlM_members_of_decodeStrict {old r : α} {v : Json}
    (h : decodeStrict fields store old v = some r) :
    (members v).foldlM (storeMember fields store) old = some r := by
  cases v with
  | null => exact h
  | object ms => exact h
  | _ => cases h

/-! ## Merging -/

/-- The last round of a loop that may fail. -/
theorem foldlM_concat_eq_some_iff {β γ : Type} {f : β → γ → Option β} {l : List γ} {c : γ} {b b' : β} :
    (l ++ [c]).foldlM f b = some b' ↔ ∃ b₁, l.foldlM f b = some b₁ ∧ f b₁ c = some b' := by
  rw [List.foldlM_append]
  simp [List.foldlM_cons, Option.bind_eq_some_iff]

/-- Values that are decoded into one record one after the other are merged. -/
theorem decodeStrict_merge {zero r : α} {vs : List Json}
    (h : vs.foldlM (fun r v => decodeStrict fields store r v) zero = some r) :
    decodeStrict fields store zero (.object (vs.flatMap members)) = some r := by
  rw [decodeStrict]
  induction vs generalizing zero with
  | nil => exact h
  | cons v vs ih =>
      obtain ⟨r₁, hfirst, hrest⟩ := Option.bind_eq_some_iff.mp h
      rw [List.flatMap_cons, List.foldlM_append, foldlM_members_of_decodeStrict hfirst]
      exact ih hrest

/-- If `null` resets what is written, and anything else adds its members to it, then the members since
the last `null` are what counts. -/
theorem foldlM_sinceNull {β γ : Type} {step : β → StringLit × Json → Option β}
    {write : γ → Json → Option γ} (view : γ → β) {zero : β}
    (hnull : ∀ {g g'}, write g .null = some g' → view g' = zero)
    (hmembers : ∀ {g g' v}, isNull v = false → write g v = some g' →
      (members v).foldlM step (view g) = some (view g'))
    {start g : γ} (hstart : view start = zero) {vs : List Json} (h : vs.foldlM write start = some g) :
    ((sinceNull vs).flatMap members).foldlM step zero = some (view g) := by
  induction vs using List.reverseRecOn generalizing g with
  | nil =>
      cases h
      exact congrArg some hstart.symm
  | append_singleton vs v ih =>
      obtain ⟨g₁, hfirst, hv⟩ := foldlM_concat_eq_some_iff.mp h
      rw [sinceNull]
      -- a `null` at the end takes everything back, and anything else comes on top of what was there
      cases hn : isNull v with
      | true =>
          obtain rfl : v = .null := by
            cases v <;> first | rfl | cases hn
          rw [List.rtakeWhile_concat_neg _ _ _ (by simp [hn])]
          exact congrArg some (hnull hv).symm
      | false =>
          rw [List.rtakeWhile_concat_pos _ _ _ (by simp [hn]), List.flatMap_append,
            List.foldlM_append]
          refine Option.bind_eq_some_iff.mpr ⟨view g₁, ih hfirst, ?_⟩
          rw [List.flatMap_singleton]
          exact hmembers hn hv

/-- Values that are decoded into one pointer. -/
theorem decodePointer_merge {zero : α} {o : Option α} {vs : List Json}
    (h : vs.foldlM (fun o v => decodePointer (decodeStrict fields store) zero o v) none = some o) :
    decodeStrict fields store zero (.object ((sinceNull vs).flatMap members)) =
      some (o.getD zero) := by
  refine foldlM_sinceNull (fun o : Option α => o.getD zero) ?_ ?_ rfl h
  · intro o o' hnull
    cases hnull
    rfl
  · intro o o' v hv hwrite
    have hdecode : (decodeStrict fields store (o.getD zero) v).map some = some o' := by
      cases v with
      | null => cases hv
      | _ => exact hwrite
    obtain ⟨r, hr, rfl⟩ := Option.map_eq_some_iff.mp hdecode
    exact foldlM_members_of_decodeStrict hr

/-- Values that are decoded into one map. -/
theorem decodeMap_merge {decode : Json → Option α} {m : List (Bytes × α)} {vs : List Json}
    (h : vs.foldlM (fun m v => decodeMap decode m v) [] = some m) :
    decodeMap decode [] (.object ((sinceNull vs).flatMap members)) = some m := by
  refine foldlM_sinceNull (fun m => m) ?_ ?_ rfl h
  · intro m m' hnull
    cases hnull
    rfl
  · intro m m' v hv hwrite
    cases v with
    | null => cases hv
    | object ms => exact hwrite
    | _ => cases hwrite

/-! ## The last value -/

theorem lookup_cons_eq_ite (k k' : Bytes) (a : α) (m : List (Bytes × α)) :
    ((k, a) :: m).lookup k' = if k' = k then some a else m.lookup k' := by
  by_cases hk : k' = k
  · simp [hk]
  · rw [if_neg hk, List.lookup_cons, beq_eq_false_iff_ne.mpr hk]

theorem lookup_setKey (k k' : Bytes) (a : α) (m : List (Bytes × α)) :
    (setKey k a m).lookup k' = if k' = k then some a else m.lookup k' := by
  induction m with
  | nil => exact lookup_cons_eq_ite k k' a []
  | cons e m ih =>
      obtain ⟨k₁, a₁⟩ := e
      rw [setKey]
      split
      · next hk =>
          rw [lookup_cons_eq_ite, lookup_cons_eq_ite, ← hk]
          split <;> rfl
      split
      · rw [lookup_cons_eq_ite]
      · next hk _ =>
          rw [lookup_cons_eq_ite, lookup_cons_eq_ite, ih]
          -- the entry that is passed is one of another key
          by_cases hk₁ : k' = k₁
          · rw [if_pos hk₁, if_pos hk₁, if_neg (hk₁ ▸ Ne.symm hk)]
          · rw [if_neg hk₁, if_neg hk₁]

/-- A map holds what the last value of each key is decoded into. -/
theorem lookup_of_decodeMap {decode : Json → Option α} {ms : List (StringLit × Json)}
    {m : List (Bytes × α)} (h : decodeMap decode [] (.object ms) = some m) (k : Bytes) :
    (valuesAt k ms).getLast?.map decode = (m.lookup k).map some := by
  rw [decodeMap] at h
  induction ms using List.reverseRecOn generalizing m with
  | nil =>
      cases h
      rfl
  | append_singleton ms e ih =>
      obtain ⟨m₁, hfirst, he⟩ := foldlM_concat_eq_some_iff.mp h
      obtain ⟨a, ha, rfl⟩ := Option.map_eq_some_iff.mp he
      rw [lookup_setKey, valuesAt, List.filter_append, List.map_append]
      by_cases hk : unquote e.1 = k
      · simp [hk, ha]
      · rw [if_neg (Ne.symm hk), ← ih hfirst]
        simp [hk, valuesAt]

theorem keyOrder_of_decodeMap {decode : Json → Option α} {ms : List (StringLit × Json)}
    {m : List (Bytes × α)} (h : decodeMap decode [] (.object ms) = some m) : KeyOrder m := by
  rw [decodeMap] at h
  induction ms using List.reverseRecOn generalizing m with
  | nil =>
      cases h
      exact List.Pairwise.nil
  | append_singleton ms e ih =>
      obtain ⟨m₁, hfirst, he⟩ := foldlM_concat_eq_some_iff.mp h
      obtain ⟨a, -, rfl⟩ := Option.map_eq_some_iff.mp he
      exact (ih hfirst).setKey _ a

/-- A list of strings that is decoded holds the string of each element. -/
theorem eq_of_decodeTexts {v : Json} {texts : List Bytes} (h : decodeTexts v = some texts) :
    texts = (elements v).map text := by
  cases v with
  | null =>
      cases h
      rfl
  | array vs =>
      rw [decodeTexts] at h
      rw [elements]
      induction vs generalizing texts with
      | nil =>
          cases h
          rfl
      | cons v vs ih =>
          rw [List.mapM_cons] at h
          obtain ⟨t, ht, h⟩ := Option.bind_eq_some_iff.mp h
          obtain ⟨ts, hts, h⟩ := Option.bind_eq_some_iff.mp h
          cases h
          have htext : t = text v := by
            cases v with
            | null => exact (Option.some.inj ht).symm
            | string lit => exact (Option.some.inj ht).symm
            | _ => cases ht
          rw [htext, ih hts]
          rfl
  | _ => cases h

/-- Of several lists that are decoded into one field, the last one counts. -/
theorem foldlM_decodeTexts {vs : List Json} {texts : List Bytes}
    (h : vs.foldlM (fun _ v => decodeTexts v) [] = some texts) :
    texts = (vs.getLast?.map fun v => (elements v).map text).getD [] := by
  rw [foldlM_overwrite] at h
  split at h
  · cases hlast : vs.getLast? with
    | none =>
        rw [hlast] at h
        exact (Option.some.inj h).symm
    | some v =>
        rw [hlast] at h
        exact eq_of_decodeTexts h
  · cases h

end

end Json
