import Sanad.Common.Base64
import Sanad.Common.Json.Parser
import Sanad.Common.Json.Strings

/-! # Encoding values

The JSON that `encoding/json` writes for the Go types a message is made of.
-/

namespace Json

/-- A Go `string`. -/
def ofString (s : Bytes) : Json := .string (quote s)

/-- A Go integer. -/
def ofInt (z : ℤ) : Json := .number (decimal z)

/-- A Go `[]byte`, which is written in base64. -/
def ofBytes (b : Bytes) : Json :=
  .string (verbatim (Base64.encode b) (by
    have halphabet : ∀ c ∈ Base64.alphabet, 0x20 ≤ c ∧ c ≠ quoteMark ∧ c ≠ backslash := by
      decide +kernel
    intro c hc
    rcases Base64.encode_mem b c hc with hc | rfl
    · exact halphabet c hc
    · decide))

/-- The members of a struct, under their names. -/
def ofFields (fields : List (String × Json)) : Json :=
  .object (fields.map fun p => (quote (Bytes.ascii p.1), p.2))

/-- The members of a struct some of whose fields are left out when they are empty. -/
def ofOptionalFields (fields : List (String × Option Json)) : Json :=
  .object (fields.filterMap fun p => p.2.map fun v => (quote (Bytes.ascii p.1), v))

theorem ofInt_injective {y z : ℤ} (h : ofInt y = ofInt z) : y = z :=
  decimal_injective (Json.number.inj h)

theorem ofBytes_injective {b b' : Bytes} (h : ofBytes b = ofBytes b') : b = b' :=
  Base64.encode_injective (congrArg Lexer.Token.bytes (Json.string.inj h))

/-- The first member that was not left out has the name of its field. -/
theorem mem_names_of_eq_cons {fields : List (String × Option Json)} {k : StringLit} {v : Json}
    {ms : List (StringLit × Json)}
    (h : (fields.filterMap fun p => p.2.map fun v => (quote (Bytes.ascii p.1), v)) = (k, v) :: ms) :
    k ∈ fields.map fun p => quote (Bytes.ascii p.1) := by
  obtain ⟨p, hp, hv⟩ := List.mem_filterMap.mp (h ▸ List.mem_cons_self : (k, v) ∈ _)
  obtain ⟨v', -, hkey⟩ := Option.map_eq_some_iff.mp hv
  exact List.mem_map.mpr ⟨p, hp, (Prod.mk.inj hkey).1⟩

/-- Members with names of their own tell which fields were left out. -/
theorem ofOptionalFields_injective {fields fields' : List (String × Option Json)}
    (h : ofOptionalFields fields = ofOptionalFields fields')
    (hnames : fields.map Prod.fst = fields'.map Prod.fst)
    (hnodup : ((fields.map Prod.fst).map fun name => quote (Bytes.ascii name)).Nodup) :
    fields = fields' := by
  have hmembers := Json.object.inj h
  clear h
  rw [List.map_map] at hnodup
  induction fields generalizing fields' with
  | nil => exact (List.map_eq_nil_iff.mp hnames.symm).symm
  | cons p fields ih =>
      cases fields' with
      | nil => cases hnames
      | cons q fields' =>
          obtain ⟨name, x⟩ := p
          obtain ⟨name', y⟩ := q
          obtain ⟨rfl, hrest⟩ := List.cons.inj hnames
          obtain ⟨hnotMem, hnodup'⟩ := List.nodup_cons.mp hnodup
          have hquoted := congrArg (List.map fun name => quote (Bytes.ascii name)) hrest
          rw [List.map_map, List.map_map] at hquoted
          -- a field that only one side has would be a later member of the other
          cases x with
          | none =>
              cases y with
              | none => rw [ih hrest hnodup' hmembers]
              | some y => exact absurd (@mem_names_of_eq_cons fields _ _ _ hmembers) hnotMem
          | some x =>
              cases y with
              | none =>
                  rw [hquoted] at hnotMem
                  exact absurd (@mem_names_of_eq_cons fields' _ _ _ hmembers.symm) hnotMem
              | some y =>
                  obtain ⟨hhead, htail⟩ := List.cons.inj hmembers
                  rw [ih hrest hnodup' htail, (Prod.mk.inj hhead).2]

end Json
