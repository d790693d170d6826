import Sanad.Common.Json.Equality
import Sanad.Tooldefs.Coverage

/-! # What the canonical definitions identify

`tooldefs/canonical.go`: two results have the same canonical bytes exactly if their tools are the
same, in any order and whatever is under `_meta` (`canonical_bytes_eq_iff`). The definition of a tool
is one line that determines the tool, its name included, so sorting the lines by name and then by
definition is a normal form of the multiset of tools.
-/

namespace Sanad.Tooldefs

open Json

/-! ## One tool -/

/-- A tool without its `_meta` member. -/
def withoutMeta : Json → Json
  | .object ms => .object (ms.filter fun m => unquote m.1 ≠ metaField)
  | v => v

theorem noRepeats_withoutMeta {tool : Json} (h : NoRepeats tool) : NoRepeats (withoutMeta tool) := by
  cases tool with
  | object ms => exact h.filter _
  | _ => exact h

/-- The line that is written for a tool. -/
def line (tool : Json) : Bytes := render (Json.normalize (withoutMeta tool))

/-- Tools without repeated names have the same line if they are the same but for `_meta`. -/
theorem line_eq_iff {tool tool' : Json} (h : NoRepeats tool) (h' : NoRepeats tool') :
    line tool = line tool' ↔ Same (withoutMeta tool) (withoutMeta tool') := by
  rw [← normalize_eq_iff _ _ (noRepeats_withoutMeta h) (noRepeats_withoutMeta h')]
  exact ⟨fun heq => render_injective heq, congrArg render⟩

/-- The map that is encoded for a tool: deleting `_meta` and encoding the values commutes with making
the map. -/
theorem kept_eq {ms : List (StringLit × Json)} (h : (ms.map fun m => unquote m.1).Nodup) :
    ((mapOf (ms.map fun m => (unquote m.1, m.2))).filter fun e => e.1 ≠ metaField).map
        (fun e : Bytes × Json => (e.1, e.2.normalize)) =
      mapOf (normalizeMembers (ms.filter fun m => unquote m.1 ≠ metaField)) := by
  have hkept : ((ms.filter fun m => unquote m.1 ≠ metaField).map fun m => unquote m.1).Nodup :=
    h.sublist (List.filter_sublist.map _)
  have hmap : (mapOf (ms.map fun m => (unquote m.1, m.2))).Perm
      (ms.map fun m => (unquote m.1, m.2)) := by
    refine mapOf_perm ?_
    rw [List.map_map]
    exact h
  refine KeyOrder.eq_of_perm (KeyOrder.map ((keyOrder_mapOf _).filter _) _) (keyOrder_mapOf _) ?_
  refine ((hmap.filter _).map _).trans ?_
  rw [List.filter_map, List.map_map]
  refine List.Perm.trans ?_ (mapOf_perm (nodup_normalizeMembers hkept)).symm
  rw [normalizeMembers_eq_map]
  exact List.Perm.refl _

/-- What the loop of `Canonical` keeps of a tool: its line, which is the text of a map that has the
name of the tool under `name`. -/
structure Keeps (tool : Json) (e : Entry) : Prop where
  canon : e.canon = line tool
  named : ∃ m, KeyOrder m ∧ (∀ f ∈ m, Utf8.valid f.1 = true) ∧ e.canon = render (.ofMap m) ∧
    (Bytes.ascii "name", .ofString e.name) ∈ m
  valid : Utf8.valid e.name = true

theorem stringAt_cases (key : Bytes) (m : List (Bytes × Json)) :
    stringAt key m = [] ∨ ∃ lit, (key, .string lit) ∈ m ∧ stringAt key m = unquote lit := by
  rw [stringAt]
  split
  · next lit hlookup =>
      obtain ⟨front, back, rfl, -⟩ := List.lookup_eq_some_iff.mp hlookup
      exact .inr ⟨lit, by simp, rfl⟩
  · exact .inl rfl

theorem keeps_of_toEntry {i : ℕ} {tool : Json} {e : Entry} (hnames : NoRepeats tool)
    (h : toEntry i tool = .ok e) : Keeps tool e := by
  rw [toEntry, Except.bind_eq_ok_iff] at h
  obtain ⟨m, hmap, h⟩ := h
  rw [Except.ofOption_eq_ok_iff] at hmap
  rw [Except.check_bind_eq_ok_iff, Except.require_eq_ok_iff] at h
  obtain ⟨hname, h⟩ := h
  obtain rfl := Except.ok.inj h
  obtain ⟨lit, hmem, hlit⟩ := (stringAt_cases (Bytes.ascii "name") m).resolve_left hname
  have hnotMeta : Bytes.ascii "name" ≠ metaField := by decide
  cases tool with
  | object ms =>
      obtain rfl := Option.some.inj hmap
      have hkept := kept_eq hnames.nodup
      refine ⟨?_, ⟨_, keyOrder_mapOf _, ?_, by rw [hkept], ?_⟩, ?_⟩
      · rw [hkept, line, withoutMeta, Json.normalize]
      · exact valid_mapOf_normalizeMembers (noRepeats_withoutMeta hnames).nodup
      · rw [← hkept, hlit]
        refine List.mem_map.mpr ⟨_, List.mem_filter.mpr ⟨hmem, decide_eq_true hnotMeta⟩, ?_⟩
        rw [Json.normalize]
      · rw [hlit]
        exact valid_unquote lit
  | null =>
      obtain rfl := Option.some.inj hmap
      cases hmem
  | _ => cases hmap

/-- The line of a tool determines its name. -/
theorem Keeps.eq_of_canon {tool tool' : Json} {e e' : Entry} (h : Keeps tool e)
    (h' : Keeps tool' e') (hcanon : e.canon = e'.canon) : e = e' := by
  obtain ⟨m, horder, hvalid, hm, hmem⟩ := h.named
  obtain ⟨m', -, hvalid', hm', hmem'⟩ := h'.named
  rw [hcanon, hm'] at hm
  obtain rfl := ofMap_injOn hvalid' hvalid (render_injective hm)
  have hnames : Json.ofString e.name = .ofString e'.name := horder.value_unique hmem hmem'
  obtain ⟨name, canon⟩ := e
  obtain ⟨name', canon'⟩ := e'
  obtain rfl : name = name' := ofString_injOn h.valid h'.valid hnames
  obtain rfl : canon = canon' := hcanon
  rfl

/-! ## The list of tools -/

theorem forall₂_of_toEntries {i : ℕ} {tools : List Json} {entries : List Entry}
    (hnames : ∀ tool ∈ tools, NoRepeats tool) (h : toEntries i tools = .ok entries) :
    List.Forall₂ Keeps tools entries := by
  induction tools generalizing i entries with
  | nil =>
      obtain rfl := Except.ok.inj h
      exact List.Forall₂.nil
  | cons tool tools ih =>
      rw [toEntries, Except.bind_eq_ok_iff] at h
      obtain ⟨e, hentry, h⟩ := h
      rw [Except.bind_eq_ok_iff] at h
      obtain ⟨es, hentries, h⟩ := h
      obtain rfl := Except.ok.inj h
      rw [List.forall_mem_cons] at hnames
      exact .cons (keeps_of_toEntry hnames.1 hentry) (ih hnames.2 hentries)

instance : Std.Total Entry.le where
  total a b := by
    by_cases h : a.name = b.name
    · exact (List.le_total a.canon b.canon).imp (fun hle => .inr ⟨h, hle⟩) fun hle => .inr ⟨h.symm, hle⟩
    · rcases List.le_total a.name b.name with hle | hle
      · exact .inl (.inl (Std.lt_of_le_of_ne hle h))
      · exact .inr (.inl (Std.lt_of_le_of_ne hle (Ne.symm h)))

instance : IsTrans Entry Entry.le where
  trans a b c := by
    rintro (hab | ⟨hab, hcanon⟩) (hbc | ⟨hbc, hcanon'⟩)
    · exact .inl (List.lt_trans hab hbc)
    · exact .inl (hbc ▸ hab)
    · exact .inl (hab ▸ hbc)
    · exact .inr ⟨hab.trans hbc, List.le_trans hcanon hcanon'⟩

instance : Std.Antisymm Entry.le where
  antisymm a b := by
    rintro (hab | ⟨hab, hcanon⟩) (hba | ⟨hba, hcanon'⟩)
    · exact absurd hba (List.lt_asymm hab)
    · exact absurd (hba ▸ hab) (List.lt_irrefl _)
    · exact absurd (hab ▸ hba) (List.lt_irrefl _)
    · obtain ⟨name, canon⟩ := a
      obtain ⟨name', canon'⟩ := b
      obtain rfl : name = name' := hab
      obtain rfl : canon = canon' := List.le_antisymm hcanon hcanon'
      rfl

/-- The sorted entries do not depend on the order of the tools. -/
theorem sorted_eq_of_perm {es es' : List Entry} (h : es.Perm es') :
    es.insertionSort Entry.le = es'.insertionSort Entry.le :=
  List.Perm.eq_of_pairwise' (List.pairwise_insertionSort _ es) (List.pairwise_insertionSort _ es')
    ((List.perm_insertionSort _ es).trans (h.trans (List.perm_insertionSort _ es').symm))

/-- Lines are read back from their concatenation. -/
theorem splitOn_lines {ls : List Bytes} (h : ∀ l ∈ ls, 0x0a ∉ l) :
    (ls.flatMap fun l => l ++ [0x0a]).splitOn 0x0a = ls ++ [[]] := by
  induction ls with
  | nil => rfl
  | cons l ls ih =>
      rw [List.forall_mem_cons] at h
      rw [List.flatMap_cons, List.append_assoc, List.singleton_append,
        List.splitOn_append_cons_self_of_not_mem h.1, ih h.2, List.cons_append]

/-- The tools of the two lists are the same but for `_meta`, in some order. -/
def SameTools (tools tools' : List Json) : Prop :=
  ∃ ts, ts.Perm tools' ∧
    List.Forall₂ (fun a b => Same (withoutMeta a) (withoutMeta b)) tools ts

theorem map_line_eq_iff {tools ts : List Json} (h : ∀ tool ∈ tools, NoRepeats tool)
    (h' : ∀ tool ∈ ts, NoRepeats tool) :
    tools.map line = ts.map line ↔
      List.Forall₂ (fun a b => Same (withoutMeta a) (withoutMeta b)) tools ts := by
  induction tools generalizing ts with
  | nil => cases ts <;> simp
  | cons tool tools ih =>
      cases ts with
      | nil => simp
      | cons t ts =>
          rw [List.forall_mem_cons] at h h'
          rw [List.map_cons, List.map_cons, List.cons.injEq, List.forall₂_cons,
            line_eq_iff h.1 h'.1, ih h.2 h'.2]

theorem sameTools_iff {tools tools' : List Json} (h : ∀ tool ∈ tools, NoRepeats tool)
    (h' : ∀ tool ∈ tools', NoRepeats tool) :
    SameTools tools tools' ↔ (tools.map line).Perm (tools'.map line) := by
  rw [perm_map_iff, SameTools]
  refine exists_congr fun ts => and_congr_right fun hperm => ?_
  exact (map_line_eq_iff h fun t ht => h' t (hperm.mem_iff.mp ht)).symm

/-- What `Canonical` writes for a list of tools. -/
theorem lines_of_definitions {tools : List Json} {page : Bool} {defs : Defs}
    (hnames : ∀ tool ∈ tools, NoRepeats tool) (h : definitions tools page = .ok defs) :
    ∃ entries, List.Forall₂ Keeps tools entries ∧
      defs.bytes = ((entries.insertionSort Entry.le).map Entry.canon).flatMap fun l => l ++ [0x0a] := by
  rw [definitions, Except.bind_eq_ok_iff] at h
  obtain ⟨entries, hentries, h⟩ := h
  obtain rfl := Except.ok.inj h
  exact ⟨entries, forall₂_of_toEntries hnames hentries, by rw [List.flatMap_map]⟩

theorem map_canon_of_forall₂ {tools : List Json} {entries : List Entry}
    (h : List.Forall₂ Keeps tools entries) : entries.map Entry.canon = tools.map line := by
  induction h with
  | nil => rfl
  | cons hkeeps _ ih => rw [List.map_cons, List.map_cons, hkeeps.canon, ih]

theorem exists_keeps {tools : List Json} {entries : List Entry}
    (h : List.Forall₂ Keeps tools entries) : ∀ e ∈ entries, ∃ tool, Keeps tool e := by
  induction h with
  | nil => simp
  | cons hkeeps _ ih => exact List.forall_mem_cons.mpr ⟨⟨_, hkeeps⟩, ih⟩

/-- The sorted lines are a normal form of the lines. -/
theorem sorted_canon_eq_iff {tools tools' : List Json} {es es' : List Entry}
    (h : List.Forall₂ Keeps tools es) (h' : List.Forall₂ Keeps tools' es') :
    (es.insertionSort Entry.le).map Entry.canon = (es'.insertionSort Entry.le).map Entry.canon ↔
      (es.map Entry.canon).Perm (es'.map Entry.canon) := by
  constructor
  · intro heq
    have hperm := (List.perm_insertionSort Entry.le es).map Entry.canon
    rw [heq] at hperm
    exact hperm.symm.trans ((List.perm_insertionSort Entry.le es').map Entry.canon)
  · intro hperm
    obtain ⟨fs, hfs, hcanon⟩ := perm_map_iff.mp hperm
    obtain rfl : es = fs := by
      refine eq_of_map_eq_map ?_ hcanon
      intro e he f hf hef
      obtain ⟨_, hkeeps⟩ := exists_keeps h e he
      obtain ⟨_, hkeeps'⟩ := exists_keeps h' f (hfs.mem_iff.mp hf)
      exact hkeeps.eq_of_canon hkeeps' hef
    rw [sorted_eq_of_perm hfs]

theorem lineFeed_notMem_canon {tools : List Json} {es : List Entry}
    (h : List.Forall₂ Keeps tools es) :
    ∀ l ∈ (es.insertionSort Entry.le).map Entry.canon, 0x0a ∉ l := by
  intro l hl
  obtain ⟨e, he, rfl⟩ := List.mem_map.mp hl
  obtain ⟨_, hkeeps⟩ := exists_keeps h e ((List.perm_insertionSort _ _).mem_iff.mp he)
  rw [hkeeps.canon]
  exact lineFeed_notMem_render _

/-- Lists of tools have the same bytes exactly if they are the same but for `_meta` and the order. -/
theorem definitions_bytes_eq_iff {tools tools' : List Json} {page page' : Bool} {defs defs' : Defs}
    (hnames : ∀ tool ∈ tools, NoRepeats tool) (hnames' : ∀ tool ∈ tools', NoRepeats tool)
    (h : definitions tools page = .ok defs) (h' : definitions tools' page' = .ok defs') :
    defs.bytes = defs'.bytes ↔ SameTools tools tools' := by
  obtain ⟨es, hes, hbytes⟩ := lines_of_definitions hnames h
  obtain ⟨es', hes', hbytes'⟩ := lines_of_definitions hnames' h'
  rw [sameTools_iff hnames hnames', ← map_canon_of_forall₂ hes, ← map_canon_of_forall₂ hes',
    ← sorted_canon_eq_iff hes hes', hbytes, hbytes']
  constructor
  · intro heq
    have hsplit := congrArg (List.splitOn 0x0a) heq
    rw [splitOn_lines (lineFeed_notMem_canon hes), splitOn_lines (lineFeed_notMem_canon hes')] at hsplit
    exact List.append_cancel_right hsplit
  · intro heq
    rw [heq]

/-! ## The result -/

/-- `Canonical` of a result as received. -/
def canonicalOf (result : Bytes) : Except CanonicalError Defs :=
  match unmarshal result with
  | some v => canonical v
  | none => .error .notAToolList

/-- No member of the result has the name of another one, not even up to case. -/
def DistinctNames : Json → Prop
  | .object ms => (ms.map fun m => foldName (unquote m.1)).Nodup
  | _ => True

/-- The array in the member `tools` of a result. -/
def toolsArray : Json → Option (List Json)
  | .object ms =>
    match variants (Bytes.ascii "tools") ms with
    | [.array tools] => some tools
    | _ => none
  | _ => none

theorem length_variants_le {ms : List (StringLit × Json)}
    (h : (ms.map fun m => foldName (unquote m.1)).Nodup) (name : Bytes) :
    (variants name ms).length ≤ 1 := by
  have hkeys : ((ms.filter fun m => foldName name = foldName (unquote m.1)).map fun m =>
      foldName (unquote m.1)).Nodup := h.sublist (List.filter_sublist.map _)
  have hsame : ∀ k ∈ (ms.filter fun m => foldName name = foldName (unquote m.1)).map fun m =>
      foldName (unquote m.1), k = foldName name := by
    simp +contextual [eq_comm]
  rw [List.eq_replicate_of_mem hsame, List.nodup_replicate, List.length_map] at hkeys
  rwa [variants, List.length_map]

/-- What `Canonical` accepts is an object with one array of tools, and the rest of it does not count.
-/
theorem definitions_of_canonical {v : Json} {defs : Defs} (hnames : NoRepeats v)
    (hdistinct : DistinctNames v) (h : canonical v = .ok defs) :
    ∃ tools page, toolsArray v = some tools ∧ (∀ tool ∈ tools, NoRepeats tool) ∧
      definitions tools page = .ok defs := by
  rw [canonical] at h
  split at h
  · next tools nextCursor hraw =>
      cases v with
      | object ms =>
          rw [Raw.decode_object] at hraw
          obtain ⟨decoded, htools, hcursor⟩ := Option.bind_eq_some_iff.mp hraw
          obtain ⟨cursor, -, hdecoded⟩ := Option.map_eq_some_iff.mp hcursor
          obtain rfl : decoded = some tools := (Raw.mk.inj hdecoded).1
          -- names are distinct up to case, so that the decoder has one array to take
          have hlength := length_variants_le hdistinct (Bytes.ascii "tools")
          cases hvariants : variants (Bytes.ascii "tools") ms with
          | nil =>
              rw [hvariants] at htools
              cases htools
          | cons x xs =>
              rw [hvariants] at htools hlength
              obtain rfl : xs = [] := List.length_eq_zero_iff.mp (by simpa using hlength)
              have hx : decodeRawMessages x = some (some tools) := by simpa using htools
              cases x with
              | array vs =>
                  obtain rfl := Option.some.inj (Option.some.inj hx)
                  have hmem : Json.array vs ∈ variants (Bytes.ascii "tools") ms := by simp [hvariants]
                  obtain ⟨m, hm, hvs⟩ := List.mem_map.mp hmem
                  have hvalue := hnames.of_mem_object (List.mem_of_mem_filter hm)
                  rw [hvs] at hvalue
                  exact ⟨vs, _, by rw [toolsArray, hvariants], fun tool => hvalue.of_mem_array, h⟩
              | _ => cases hx
      | null => cases hraw
      | _ => cases hraw
  · cases h

/-- Two results that are accepted and repeat no names, not even up to case, have the same canonical
bytes exactly if their arrays of tools are the same multiset, where a tool counts without its `_meta`
and values are compared up to the order of members and the spelling of strings. The other members of
the results do not matter. -/
theorem canonical_bytes_eq_iff (result result' : Bytes) (v v' : Json) (defs defs' : Defs)
    (hread : unmarshal result = some v) (hread' : unmarshal result' = some v')
    (hnames : NoRepeats v) (hnames' : NoRepeats v') (hdistinct : DistinctNames v)
    (hdistinct' : DistinctNames v') (h : canonicalOf result = .ok defs)
    (h' : canonicalOf result' = .ok defs') :
    ∃ tools tools', toolsArray v = some tools ∧ toolsArray v' = some tools' ∧
      (defs.bytes = defs'.bytes ↔ SameTools tools tools') ∧
      (tools = tools' → defs.bytes = defs'.bytes) := by
  rw [canonicalOf, hread] at h
  rw [canonicalOf, hread'] at h'
  obtain ⟨tools, page, htools, hrepeats, hdefs⟩ := definitions_of_canonical hnames hdistinct h
  obtain ⟨tools', page', htools', hrepeats', hdefs'⟩ :=
    definitions_of_canonical hnames' hdistinct' h'
  have hiff := definitions_bytes_eq_iff hrepeats hrepeats' hdefs hdefs'
  refine ⟨tools, tools', htools, htools', hiff, ?_⟩
  rintro rfl
  exact hiff.mpr ((sameTools_iff hrepeats hrepeats).mpr (List.Perm.refl _))

/-- Two tools in another order, one of them with a `_meta`, in a result with a cursor. -/
theorem canonical_bytes_eq_reordered :
    let tool := fun (name : String) (more : List (String × Json)) =>
      Json.ofFields (("name", .ofString (Bytes.ascii name)) :: more)
    let result := Json.ofFields [("tools", .array [tool "a" [("_meta", .null)], tool "b" []])]
    let result' := Json.ofFields
      [("nextCursor", .ofString (Bytes.ascii "2")), ("tools", .array [tool "b" [], tool "a" []])]
    let names := [Bytes.ascii "a", Bytes.ascii "b"]
    let bytes := Bytes.ascii "\x7b\"name\":\"a\"\x7d\n\x7b\"name\":\"b\"\x7d\n"
    canonicalOf (render result) = .ok ⟨names, false, bytes⟩ ∧
      canonicalOf (render result') = .ok ⟨names, true, bytes⟩ ∧
      ∃ tools tools', toolsArray result = some tools ∧ toolsArray result' = some tools' ∧
        SameTools tools tools' := by
  intro tool result result' names bytes
  have hread : unmarshal (render result) = some result :=
    (unmarshal_of_document (Sample.document_render _)).trans (if_pos (by decide))
  have hread' : unmarshal (render result') = some result' :=
    (unmarshal_of_document (Sample.document_render _)).trans (if_pos (by decide))
  have hcanonical : canonical result = .ok ⟨names, false, bytes⟩ := by decide +kernel
  have hcanonical' : canonical result' = .ok ⟨names, true, bytes⟩ := by decide +kernel
  have h : canonicalOf (render result) = .ok ⟨names, false, bytes⟩ := by rwa [canonicalOf, hread]
  have h' : canonicalOf (render result') = .ok ⟨names, true, bytes⟩ := by rwa [canonicalOf, hread']
  obtain ⟨tools, tools', htools, htools', hiff, -⟩ := canonical_bytes_eq_iff _ _ _ _ _ _ hread hread'
    (by decide) (by decide) (show (List.map _ _).Nodup by decide)
    (show (List.map _ _).Nodup by decide) h h'
  exact ⟨h, h', tools, tools', htools, htools', hiff.mp rfl⟩

end Sanad.Tooldefs
