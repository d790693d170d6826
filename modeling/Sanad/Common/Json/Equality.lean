import Mathlib.Data.List.Perm.Basic
import Sanad.Common.Json.Any
import Sanad.Common.Json.Decode
import Sanad.Common.Json.RoundTrip

/-! # Equality of values

Two values are the same if they differ in the order of members and in the spelling of strings only;
a number is compared as written. Without repeated names that is what is left of a value that is
decoded into an `any` and encoded again (`normalize_eq_iff`).
-/

namespace Json

mutual

/-- Equality up to the order of members and the spelling of strings. -/
def Same : Json → Json → Prop
  | .null, .null => True
  | .bool x, .bool y => x = y
  | .number a, .number b => a = b
  | .string a, .string b => unquote a = unquote b
  | .array vs, .array ws => SameElems vs ws
  | .object ms, .object ns => ∃ ns', ns'.Perm ns ∧ SameMembers ms ns'
  | _, _ => False

def SameElems : List Json → List Json → Prop
  | [], [] => True
  | v :: vs, w :: ws => Same v w ∧ SameElems vs ws
  | _, _ => False

def SameMembers : List (StringLit × Json) → List (StringLit × Json) → Prop
  | [], [] => True
  | (k, v) :: ms, (k', w) :: ns => unquote k = unquote k' ∧ Same v w ∧ SameMembers ms ns
  | _, _ => False

end

/-! ## Maps are sorted -/

section

variable {α β : Type}

/-- A rearrangement of images is the images of a rearrangement. -/
theorem perm_map_iff {f : α → β} {bs : List β} {as : List α} :
    bs.Perm (as.map f) ↔ ∃ as' : List α, as'.Perm as ∧ bs = as'.map f := by
  have hcomp := congrFun (congrFun (List.eq_map_comp_perm f) bs) as
  rw [← hcomp]
  exact exists_congr fun _ => and_comm

theorem mem_of_mem_setKey {k : Bytes} {v : α} {m : List (Bytes × α)} {e : Bytes × α}
    (h : e ∈ setKey k v m) : e = (k, v) ∨ e ∈ m := by
  induction m with
  | nil => exact .inl (List.mem_singleton.mp h)
  | cons f m ih =>
      obtain ⟨k', v'⟩ := f
      rw [setKey] at h
      split at h
      · exact (List.mem_cons.mp h).imp_right (List.mem_cons_of_mem _)
      split at h
      · exact List.mem_cons.mp h
      · rcases List.mem_cons.mp h with rfl | h
        · exact .inr List.mem_cons_self
        · exact (ih h).imp_right (List.mem_cons_of_mem _)

/-- A map in the order of its keys. -/
abbrev KeyOrder (m : List (Bytes × α)) : Prop := m.Pairwise fun a b => a.1 < b.1

theorem KeyOrder.setKey {m : List (Bytes × α)} (h : KeyOrder m) (k : Bytes) (v : α) :
    KeyOrder (setKey k v m) := by
  induction m with
  | nil => exact List.pairwise_singleton _ _
  | cons f m ih =>
      obtain ⟨k', v'⟩ := f
      obtain ⟨hfirst, hrest⟩ := List.pairwise_cons.mp h
      rw [Json.setKey]
      split
      · next heq =>
          rw [heq]
          exact List.pairwise_cons.mpr ⟨hfirst, hrest⟩
      split
      · next hlt =>
          refine List.pairwise_cons.mpr ⟨?_, h⟩
          intro e he
          rcases List.mem_cons.mp he with rfl | he
          · exact hlt
          · exact List.lt_trans hlt (hfirst e he)
      · next hne hlt =>
          refine List.pairwise_cons.mpr ⟨?_, ih hrest⟩
          intro e he
          rcases mem_of_mem_setKey he with rfl | he
          · exact Std.lt_of_le_of_ne (List.not_lt.mp hlt) (Ne.symm hne)
          · exact hfirst e he

theorem keyOrder_mapOf (entries : List (Bytes × α)) : KeyOrder (mapOf entries) := by
  induction entries using List.reverseRecOn with
  | nil => exact List.Pairwise.nil
  | append_singleton entries e ih =>
      rw [mapOf, List.foldl_append, List.foldl_cons, List.foldl_nil]
      exact ih.setKey e.1 e.2

theorem KeyOrder.map {m : List (Bytes × α)} (h : KeyOrder m) (f : α → β) :
    KeyOrder (m.map fun e => (e.1, f e.2)) :=
  List.pairwise_map.mpr h

/-- There is one order for the entries of a map. -/
theorem KeyOrder.eq_of_perm {m m' : List (Bytes × α)} (h : KeyOrder m) (h' : KeyOrder m')
    (hperm : m.Perm m') : m = m' :=
  List.Perm.eq_of_pairwise (fun _ _ _ _ hab hba => absurd hba (List.lt_asymm hab)) h h' hperm

theorem KeyOrder.value_unique {m : List (Bytes × α)} (h : KeyOrder m) {k : Bytes} {v v' : α}
    (hv : (k, v) ∈ m) (hv' : (k, v') ∈ m) : v = v' := by
  have hkeys : (m.map Prod.fst).Nodup := by
    refine List.Pairwise.imp ?_ (List.pairwise_map.mpr h)
    rintro a b hlt rfl
    exact List.lt_irrefl _ hlt
  exact (Prod.mk.inj (List.inj_on_of_nodup_map hkeys hv hv' rfl)).2

/-- Without repeated keys, a map is its entries in any order. -/
theorem mapOf_eq_iff {es es' : List (Bytes × α)} (h : (es.map Prod.fst).Nodup)
    (h' : (es'.map Prod.fst).Nodup) : mapOf es = mapOf es' ↔ es.Perm es' := by
  constructor
  · intro heq
    exact (mapOf_perm h).symm.trans (heq ▸ mapOf_perm h')
  · intro hperm
    exact (keyOrder_mapOf es).eq_of_perm (keyOrder_mapOf es')
      ((mapOf_perm h).trans (hperm.trans (mapOf_perm h').symm))

end

/-- A map is read back from the object that is written for it. -/
theorem ofMap_injOn {m m' : List (Bytes × Json)} (h : ∀ e ∈ m, Utf8.valid e.1 = true)
    (h' : ∀ e ∈ m', Utf8.valid e.1 = true) (heq : ofMap m = ofMap m') : m = m' := by
  refine eq_of_map_eq_map ?_ (Json.object.inj heq)
  intro e he e' he' hmember
  obtain ⟨hkey, hvalue⟩ := Prod.mk.inj hmember
  exact Prod.ext (quote_injective (h e he) (h' e' he') hkey) hvalue

/-! ## What is left of a value -/

theorem normalizeMembers_eq_map (ms : List (StringLit × Json)) :
    normalizeMembers ms = ms.map fun m => (unquote m.1, normalize m.2) := by
  induction ms with
  | nil => rfl
  | cons m ms ih =>
      obtain ⟨k, v⟩ := m
      rw [normalizeMembers, ih, List.map_cons]

theorem nodup_normalizeMembers {ms : List (StringLit × Json)}
    (h : (ms.map fun m => unquote m.1).Nodup) : ((normalizeMembers ms).map Prod.fst).Nodup := by
  rw [normalizeMembers_eq_map, List.map_map]
  exact h

theorem valid_mapOf_normalizeMembers {ms : List (StringLit × Json)}
    (h : (ms.map fun m => unquote m.1).Nodup) :
    ∀ e ∈ mapOf (normalizeMembers ms), Utf8.valid e.1 = true := by
  intro e he
  rw [(mapOf_perm (nodup_normalizeMembers h)).mem_iff, normalizeMembers_eq_map] at he
  obtain ⟨m, -, rfl⟩ := List.mem_map.mp he
  exact valid_unquote m.1

/-- Objects without repeated names are written alike if one can be reordered so that its members are
those of the other. -/
theorem normalize_object_eq_iff {ms ns : List (StringLit × Json)}
    (hms : (ms.map fun m => unquote m.1).Nodup) (hns : (ns.map fun m => unquote m.1).Nodup) :
    normalize (.object ms) = normalize (.object ns) ↔
      ∃ ns', ns'.Perm ns ∧ normalizeMembers ms = normalizeMembers ns' := by
  have hperm : (normalizeMembers ms).Perm (normalizeMembers ns) ↔
      ∃ ns', ns'.Perm ns ∧ normalizeMembers ms = normalizeMembers ns' := by
    simp only [normalizeMembers_eq_map, perm_map_iff]
  rw [normalize, normalize, ← hperm,
    ← mapOf_eq_iff (nodup_normalizeMembers hms) (nodup_normalizeMembers hns)]
  exact ⟨ofMap_injOn (valid_mapOf_normalizeMembers hms) (valid_mapOf_normalizeMembers hns),
    congrArg ofMap⟩

mutual

/-- Values without repeated names are written alike exactly if they are the same. -/
theorem normalize_eq_iff : ∀ v w : Json, NoRepeats v → NoRepeats w →
    (normalize v = normalize w ↔ Same v w)
  | .null, w, _, _ => by cases w <;> simp [normalize, Same, ofString, ofMap]
  | .bool x, w, _, _ => by cases w <;> simp [normalize, Same, ofString, ofMap]
  | .number lit, w, _, _ => by cases w <;> simp [normalize, Same, ofString, ofMap]
  | .string lit, w, _, _ => by
      cases w with
      | string lit' =>
          rw [normalize, normalize, Same]
          exact ⟨ofString_injOn (valid_unquote lit) (valid_unquote lit'), congrArg ofString⟩
      | _ => simp [normalize, Same, ofString, ofMap]
  | .array vs, w, hv, hw => by
      cases w with
      | array ws =>
          rw [normalize, normalize, Same, Json.array.injEq]
          exact normalizeElems_eq_iff vs ws (fun v => hv.of_mem_array) fun w => hw.of_mem_array
      | _ => simp [normalize, Same, ofString, ofMap]
  | .object ms, w, hv, hw => by
      cases w with
      | object ns =>
          rw [normalize_object_eq_iff hv.nodup hw.nodup, Same]
          refine exists_congr fun ns' => and_congr_right fun hperm => ?_
          exact normalizeMembers_eq_iff ms ns' (fun m => hv.of_mem_object)
            fun m hm => hw.of_mem_object (hperm.mem_iff.mp hm)
      | _ => simp [normalize, Same, ofString, ofMap]

theorem normalizeElems_eq_iff : ∀ vs ws : List Json, (∀ v ∈ vs, NoRepeats v) →
    (∀ w ∈ ws, NoRepeats w) → (normalizeElems vs = normalizeElems ws ↔ SameElems vs ws)
  | [], ws, _, _ => by cases ws <;> simp [normalizeElems, SameElems]
  | v :: vs, [], _, _ => by simp [normalizeElems, SameElems]
  | v :: vs, w :: ws, hv, hw => by
      rw [List.forall_mem_cons] at hv hw
      rw [normalizeElems, normalizeElems, SameElems, List.cons.injEq,
        normalize_eq_iff v w hv.1 hw.1, normalizeElems_eq_iff vs ws hv.2 hw.2]

theorem normalizeMembers_eq_iff : ∀ ms ns : List (StringLit × Json), (∀ m ∈ ms, NoRepeats m.2) →
    (∀ m ∈ ns, NoRepeats m.2) → (normalizeMembers ms = normalizeMembers ns ↔ SameMembers ms ns)
  | [], ns, _, _ => by cases ns <;> simp [normalizeMembers, SameMembers]
  | (k, v) :: ms, [], _, _ => by simp [normalizeMembers, SameMembers]
  | (k, v) :: ms, (k', w) :: ns, hv, hw => by
      rw [List.forall_mem_cons] at hv hw
      rw [normalizeMembers, normalizeMembers, SameMembers, List.cons.injEq, Prod.mk.injEq,
        normalize_eq_iff v w hv.1 hw.1, normalizeMembers_eq_iff ms ns hv.2 hw.2, and_assoc]

end

/-! ## Without a part of the members -/

theorem NoRepeats.of_object {ms : List (StringLit × Json)}
    (hnames : (ms.map fun m => unquote m.1).Nodup) (hvalues : ∀ m ∈ ms, NoRepeats m.2) :
    NoRepeats (.object ms) := by
  have hmembers : ∀ ns ∈ objectsMembers ms, (ns.map fun m => unquote m.1).Nodup := by
    clear hnames
    induction ms with
    | nil => simp [objectsMembers]
    | cons m ms ih =>
        obtain ⟨k, v⟩ := m
        rw [List.forall_mem_cons] at hvalues
        rw [objectsMembers, List.forall_mem_append]
        exact ⟨hvalues.1, ih hvalues.2⟩
  rw [NoRepeats, objects, List.forall_mem_cons]
  exact ⟨hnames, hmembers⟩

theorem NoRepeats.filter {ms : List (StringLit × Json)} (h : NoRepeats (.object ms))
    (p : StringLit × Json → Bool) : NoRepeats (.object (ms.filter p)) :=
  .of_object (h.nodup.sublist (List.filter_sublist.map _)) fun _ hm =>
    h.of_mem_object (List.mem_of_mem_filter hm)

/-! ## A compact text is one line -/

theorem le_of_isDigit {c : UInt8} (h : isDigit c = true) : 0x20 ≤ c := by
  rw [isDigit, Bool.and_eq_true, decide_eq_true_eq] at h
  exact UInt8.le_trans (by decide) h.1

theorem le_of_isHex {c : UInt8} (h : isHex c = true) : 0x20 ≤ c := by
  simp only [isHex, Bool.or_eq_true, Bool.and_eq_true, decide_eq_true_eq] at h
  rcases h with (h | h) | h
  · exact le_of_isDigit h
  · exact UInt8.le_trans (by decide) h.1
  · exact UInt8.le_trans (by decide) h.1

theorem le_of_mem_string (lit : StringLit) : ∀ c ∈ lit.bytes, 0x20 ≤ c := by
  intro c hc
  have hescapes : ∀ c ∈ escapes, 0x20 ≤ c := by decide +kernel
  obtain ⟨s, s', hstep⟩ := lit.exists_step c hc
  cases s <;> grind [stringLexer, le_of_isHex]

theorem le_of_mem_number (lit : NumberLit) : ∀ c ∈ lit.bytes, 0x20 ≤ c := by
  intro c hc
  obtain ⟨s, s', hstep⟩ := lit.exists_step c hc
  cases s <;> grind [numberLexer, le_of_isDigit]

theorem le_of_mem_quoted (lit : StringLit) : ∀ c ∈ quoted lit, 0x20 ≤ c := by
  rw [quoted, List.forall_mem_cons, List.forall_mem_append, List.forall_mem_singleton]
  exact ⟨by decide, le_of_mem_string lit, by decide⟩

mutual

/-- The compact text of a value has no control characters. -/
theorem le_of_mem_render : ∀ v : Json, ∀ c ∈ render v, 0x20 ≤ c
  | .null => by
      rw [render]
      decide +kernel
  | .bool x => by
      rw [render]
      cases x <;> decide +kernel
  | .number lit => by
      rw [render]
      exact le_of_mem_number lit
  | .string lit => by
      rw [render]
      exact le_of_mem_quoted lit
  | .array vs => by
      rw [render, List.forall_mem_cons, List.forall_mem_append, List.forall_mem_singleton]
      exact ⟨by decide, le_of_mem_renderElems vs, by decide⟩
  | .object ms => by
      rw [render, List.forall_mem_cons, List.forall_mem_append, List.forall_mem_singleton]
      exact ⟨by decide, le_of_mem_renderMembers ms, by decide⟩

theorem le_of_mem_renderElems : ∀ vs : List Json, ∀ c ∈ renderElems vs, 0x20 ≤ c
  | [] => by simp [renderElems]
  | [v] => by
      rw [renderElems]
      exact le_of_mem_render v
  | v :: v' :: vs => by
      rw [renderElems, List.forall_mem_append, List.forall_mem_cons]
      exact ⟨le_of_mem_render v, by decide, le_of_mem_renderElems (v' :: vs)⟩

theorem le_of_mem_renderMembers : ∀ ms : List (StringLit × Json), ∀ c ∈ renderMembers ms, 0x20 ≤ c
  | [] => by simp [renderMembers]
  | [(k, v)] => by
      rw [renderMembers, List.forall_mem_append, List.forall_mem_cons]
      exact ⟨le_of_mem_quoted k, by decide, le_of_mem_render v⟩
  | (k, v) :: m :: ms => by
      rw [renderMembers, List.forall_mem_append, List.forall_mem_cons, List.forall_mem_append,
        List.forall_mem_cons]
      exact ⟨le_of_mem_quoted k, by decide, le_of_mem_render v, by decide,
        le_of_mem_renderMembers (m :: ms)⟩

end

/-- The line feed cannot be confused with a byte of the text. -/
theorem lineFeed_notMem_render (v : Json) : 0x0a ∉ render v := fun h =>
  absurd (le_of_mem_render v _ h) (by decide)

end Json
