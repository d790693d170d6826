import Mathlib.Data.List.Sort
import Sanad.Common.Except
import Sanad.Common.Json.Any
import Sanad.Common.Json.Record

/-! # Canonical tool definitions

`tooldefs/canonical.go`: finding the `tools/list` result in a response body, and reducing it to bytes
that can be fingerprinted. A `json.RawMessage` is kept as the value it is a text of.
-/

namespace Sanad.Tooldefs

open Json

/-- `MethodToolsList` -/
def methodToolsList : Bytes := Bytes.ascii "tools/list"

/-- `metaField`: the one member of a tool definition that is not fingerprinted. -/
def metaField : Bytes := Bytes.ascii "_meta"

/-- `Defs`: one observed tool list, reduced to the form that gets fingerprinted. -/
structure Defs where
  names : List Bytes
  /-- The result carried a `nextCursor`. -/
  page : Bool
  bytes : Bytes
  deriving DecidableEq, Repr

/-- The errors of `Canonical`. What was decoded from JSON can be encoded again, so `json.Marshal` does
not add to them. -/
inductive CanonicalError where
  /-- `ErrNotAToolList`: `tooldefs: not a tools/list result` -/
  | notAToolList
  /-- `tooldefs: tools[%d]: %w`, for a tool that is no object -/
  | notAnObject (i : ℕ)
  /-- `tooldefs: tools[%d] has no name` -/
  | noName (i : ℕ)
  deriving DecidableEq, Repr

/-! ## `Canonical` -/

/-- The fields that `Canonical` reads of a result. -/
inductive RawField where
  | tools
  | nextCursor
  deriving DecidableEq, Repr

def rawFields : List (Bytes × RawField) :=
  [(Bytes.ascii "tools", .tools), (Bytes.ascii "nextCursor", .nextCursor)]

/-- What `Canonical` reads of a result. -/
structure Raw where
  /-- None if the slice is nil. -/
  tools : Option (List Json)
  nextCursor : Bytes

/-- A value decoded into a `[]json.RawMessage`. -/
def decodeRawMessages : Json → Option (Option (List Json))
  | .null => some none
  | .array vs => some (some vs)
  | _ => none

def Raw.store (r : Raw) : RawField → Json → Option Raw
  | .tools, v => (decodeRawMessages v).map fun tools => { r with tools }
  | .nextCursor, v => (decodeText r.nextCursor v).map fun nextCursor => { r with nextCursor }

def Raw.decode (result : Json) : Option Raw :=
  decodeRecord rawFields (fun f v r => r.store f v) ⟨none, []⟩ result

/-- `entry`: a tool's name and its definition without `_meta`, encoded. -/
structure Entry where
  name : Bytes
  canon : Bytes
  deriving DecidableEq, Repr

/-- The map that a tool is decoded into; `null` gives the nil map. -/
def toolMap : Json → Option (List (Bytes × Json))
  | .null => some []
  | .object ms => some (mapOf (ms.map fun m => (unquote m.1, m.2)))
  | _ => none

/-- The string in a map under a key, or the empty string. -/
def stringAt (key : Bytes) (m : List (Bytes × Json)) : Bytes :=
  match m.lookup key with
  | some (.string lit) => unquote lit
  | _ => []

/-- The body of the loop of `Canonical`, for the tool with index `i`. -/
def toEntry (i : ℕ) (tool : Json) : Except CanonicalError Entry := do
  let m ← Except.ofOption (toolMap tool) (.notAnObject i)
  let name := stringAt (Bytes.ascii "name") m
  Except.require (name ≠ []) (.noName i)
  let kept := m.filter fun e => e.1 ≠ metaField
  .ok ⟨name, render (.ofMap (kept.map fun e => (e.1, normalize e.2)))⟩

/-- The loop of `Canonical`. -/
def toEntries : ℕ → List Json → Except CanonicalError (List Entry)
  | _, [] => .ok []
  | i, tool :: tools => do
    let entry ← toEntry i tool
    let entries ← toEntries (i + 1) tools
    .ok (entry :: entries)

/-- The order of `sort.Slice`: by name, then by definition. -/
def Entry.le (a b : Entry) : Prop := a.name < b.name ∨ a.name = b.name ∧ a.canon ≤ b.canon

instance (a b : Entry) : Decidable (a.le b) :=
  inferInstanceAs (Decidable (a.name < b.name ∨ a.name = b.name ∧ a.canon ≤ b.canon))

/-- The definitions of a list of tools. -/
def definitions (tools : List Json) (page : Bool) : Except CanonicalError Defs := do
  let entries ← toEntries 0 tools
  let sorted := entries.insertionSort Entry.le
  .ok ⟨sorted.map Entry.name, page, sorted.flatMap fun e => e.canon ++ [0x0a]⟩

/-- `Canonical`: reduces a `tools/list` result to stable bytes. -/
def canonical (result : Json) : Except CanonicalError Defs :=
  match Raw.decode result with
  | some ⟨some tools, nextCursor⟩ => definitions tools (nextCursor ≠ [])
  | _ => .error .notAToolList

/-! ## `ToolsResult` -/

/-- Decode a value into a `response`: the raw result, none if there was none. -/
def decodeResponse (v : Json) : Option (Option Json) :=
  decodeRecord [(Bytes.ascii "result", ())] (fun _ v _ => some (some v)) none v

/-- Decode a value into a slice of responses. -/
def decodeResponses : Json → Option (List (Option Json))
  | .array vs => vs.mapM decodeResponse
  | _ => none

/-- The tools that `carriesTools` probes a result for. -/
def probe (result : Json) : Option (Option (List Json)) :=
  decodeRecord [(Bytes.ascii "tools", ())] (fun _ v _ => decodeRawMessages v) none result

/-- `carriesTools`: the result is a `tools/list` result. -/
def carriesTools : Option Json → Bool
  | none => false
  | some result => ((probe result).bind id).isSome

/-- `ToolsResult`: the `tools/list` result of a response body, a single message or a batch. -/
def toolsResult (body : Bytes) : Option Json :=
  let body := Utf8.trimSpace body
  match body with
  | [] => none
  | c :: _ =>
    if c = openBrace then
      match (unmarshal body).bind decodeResponse with
      | some result => if carriesTools result then result else none
      | none => none
    else if c = openBracket then
      match (unmarshal body).bind decodeResponses with
      | some results => (results.find? carriesTools).join
      | none => none
    else none

end Sanad.Tooldefs
