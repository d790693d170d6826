import Sanad.Common.Json.Repeats
import Sanad.Common.Json.RoundTrip
import Sanad.Tooldefs.Inspect

/-! # The tooldefs section of the configuration

`tooldefs/config.go`: the fingerprints an operator pins, how they are decoded and checked
(`Config.validate_eq_ok_iff`). An absent section is legal and switches the feature off. The fingerprint
that the guard reports for a server can be pasted into the section (`parseFingerprint_fingerprintString`).
-/

namespace Sanad.Tooldefs

open Json

/-- `ServerPin` -/
structure ServerPin where
  note : Bytes
  fingerprint : Bytes
  onDrift : Bytes
  deriving DecidableEq, Repr

def ServerPin.zero : ServerPin := ⟨[], [], []⟩

/-- `Config`: the servers are a map, in the order of their ids. -/
structure Config where
  note : Bytes
  onDrift : Bytes
  servers : List (Bytes × ServerPin)
  deriving DecidableEq, Repr

def Config.zero : Config := ⟨[], [], []⟩

/-! ## Decoding -/

/-- The fields of `ServerPin`. -/
inductive PinField where
  | note
  | fingerprint
  | onDrift

def pinFields : List (Bytes × PinField) :=
  [(Bytes.ascii "note", .note), (Bytes.ascii "fingerprint", .fingerprint),
    (Bytes.ascii "on_drift", .onDrift)]

def ServerPin.store (f : PinField) (v : Json) (p : ServerPin) : Option ServerPin :=
  match f with
  | .note => (decodeText p.note v).map fun s => { p with note := s }
  | .fingerprint => (decodeText p.fingerprint v).map fun s => { p with fingerprint := s }
  | .onDrift => (decodeText p.onDrift v).map fun s => { p with onDrift := s }

/-- The fields of `Config`. -/
inductive ConfigField where
  | note
  | onDrift
  | servers

def configFields : List (Bytes × ConfigField) :=
  [(Bytes.ascii "note", .note), (Bytes.ascii "on_drift", .onDrift), (Bytes.ascii "servers", .servers)]

def Config.store (f : ConfigField) (v : Json) (c : Config) : Option Config :=
  match f with
  | .note => (decodeText c.note v).map fun s => { c with note := s }
  | .onDrift => (decodeText c.onDrift v).map fun s => { c with onDrift := s }
  | .servers =>
    (decodeMap (decodeStrict pinFields ServerPin.store .zero) c.servers v).map fun m =>
      { c with servers := m }

def Config.decode (old : Config) (v : Json) : Option Config :=
  decodeStrict configFields Config.store old v

/-! ## Fingerprints -/

/-- The errors of `ParseFingerprint`, for the given text. -/
inductive FingerprintError where
  /-- `fingerprint %q must start with "sha256:" …` -/
  | algorithm
  /-- `fingerprint %q: after "sha256:" comes hex: %w` -/
  | hex
  /-- `fingerprint %q: a sha256 digest is %d hex characters, got %d` -/
  | length (got : ℕ)
  deriving DecidableEq, Repr

/-- `hex.DecodeString` -/
def hexDecode : Bytes → Option Bytes
  | [] => some []
  | [_] => none
  | c :: d :: rest => do
    let high ← hexValue c
    let low ← hexValue d
    let out ← hexDecode rest
    some ((16 * high + low).toUInt8 :: out)

/-- `ParseFingerprint` -/
def parseFingerprint (s : Bytes) : Except FingerprintError Bytes := do
  let rest ← Except.ofOption (expect (Bytes.ascii "sha256:") (Utf8.trimSpace s)) .algorithm
  let raw ← Except.ofOption (hexDecode (Bytes.rewrite lowerRune rest)) .hex
  Except.require (raw.length = 32) (.length rest.length)
  .ok raw

theorem hexDecode_hexEncode (b : Bytes) : hexDecode (hexEncode b) = some b := by
  induction b with
  | nil => rfl
  | cons c b ih =>
      have hbyte := c.toNat_lt
      have hhigh := hexValue_hexDigit (show c.toNat / 16 < 16 by omega)
      have hlow := hexValue_hexDigit (show c.toNat % 16 < 16 by omega)
      have hvalue : (16 * (c.toNat / 16) + c.toNat % 16).toUInt8 = c := by
        rw [Nat.div_add_mod]
        exact UInt8.ofNat_toNat
      rw [hexEncode] at ih
      rw [hexEncode, List.flatMap_cons, List.cons_append, List.cons_append, List.nil_append, hexDecode,
        hhigh, hlow, ih]
      exact congrArg some (congrArg (· :: b) hvalue)

/-- `strings.ToLower` leaves what `hex.EncodeToString` writes as it is. -/
theorem rewrite_lowerRune_hexEncode (b : Bytes) : Bytes.rewrite lowerRune (hexEncode b) = hexEncode b := by
  have hdigit : ∀ n < 16, hexDigit n ≠ 0xc4 ∧ hexDigit n ≠ 0xe2 ∧ Gateway.lower (hexDigit n) = hexDigit n := by
    decide
  have hrune : ∀ n < 16, ∀ t, lowerRune (hexDigit n :: t) = ([hexDigit n], 1) := by
    intro n hn t
    obtain ⟨hI, hK, hlower⟩ := hdigit n hn
    rw [lowerRune, hlower]
    · exact fun _ h _ => hI h
    · exact fun _ h _ => hK h
  induction b with
  | nil => rfl
  | cons c b ih =>
      have hbyte := c.toNat_lt
      rw [hexEncode] at ih
      rw [hexEncode, List.flatMap_cons, List.cons_append, List.cons_append, List.nil_append,
        Bytes.rewrite_cons, hrune _ (by omega)]
      simp only [Nat.sub_self, List.drop_zero, List.singleton_append]
      rw [Bytes.rewrite_cons, hrune _ (by omega)]
      simp only [Nat.sub_self, List.drop_zero, List.singleton_append, ih]

theorem trimSpace_fingerprintString {f : Bytes} (h : f ≠ []) :
    Utf8.trimSpace (fingerprintString f) = fingerprintString f := by
  have hvisible : ∀ n < 16, 0x21 ≤ hexDigit n ∧ hexDigit n < 0x80 := by decide
  obtain ⟨f, c, rfl⟩ := (List.eq_nil_or_concat f).resolve_left h
  rw [List.concat_eq_append]
  have hform : fingerprintString (f ++ [c]) = 0x73 :: ((Bytes.ascii "ha256:" ++ hexEncode f ++
      [hexDigit (c.toNat / 16)]) ++ [hexDigit (c.toNat % 16)]) := by
    simp [fingerprintString, hexEncode, Bytes.ascii]
  rw [hform]
  exact Utf8.trimSpace_visible (by decide) (hvisible _ (by omega)) _

/-- The fingerprint that is reported for a server is the one that is pinned when it is pasted. -/
theorem parseFingerprint_fingerprintString {f : Bytes} (h : f.length = 32) :
    parseFingerprint (fingerprintString f) = .ok f := by
  have hne : f ≠ [] := List.ne_nil_of_length_pos (by omega)
  rw [parseFingerprint, trimSpace_fingerprintString hne, fingerprintString, expect_append]
  simp only [Except.bind_eq_ok_iff, Except.ofOption_eq_ok_iff, Except.require_eq_ok_iff]
  refine ⟨hexEncode f, rfl, f, ?_, (), h, rfl⟩
  rw [rewrite_lowerRune_hexEncode]
  exact hexDecode_hexEncode f

/-! ## Validation -/

/-- The errors of `Config.Validate`. -/
inductive ConfigError where
  /-- `tooldefs: no servers configured: …` -/
  | noServers
  /-- `tooldefs.on_drift = %q: must be "deny" or "warn"` -/
  | onDrift (mode : Bytes)
  /-- `tooldefs: servers: a server id is empty; …` -/
  | emptyServerID
  /-- `tooldefs: server %q: server ids must not have leading or trailing whitespace …` -/
  | serverIDSpace (server : Bytes)
  /-- `tooldefs: server %q: on_drift = %q: must be "deny" or "warn"` -/
  | serverOnDrift (server mode : Bytes)
  /-- `tooldefs: server %q: %w` -/
  | fingerprint (server text : Bytes) (cause : FingerprintError)
  deriving DecidableEq, Repr

/-- The values of a `Mode` that are legal; the empty one stands for the default. -/
def IsMode (mode : Bytes) : Prop := mode = [] ∨ mode = Bytes.ascii "deny" ∨ mode = Bytes.ascii "warn"

instance (mode : Bytes) : Decidable (IsMode mode) := inferInstanceAs (Decidable (_ ∨ _))

/-- `Mode.validate` -/
def validateMode (mode : Bytes) (e : ConfigError) : Except ConfigError Unit :=
  Except.require (IsMode mode) e

/-- The body of the loop of `Config.Validate`. -/
def ServerPin.validate (id : Bytes) (p : ServerPin) : Except ConfigError Unit := do
  Except.require (Utf8.trimSpace id ≠ []) .emptyServerID
  Except.require (Utf8.trimSpace id = id) (.serverIDSpace id)
  validateMode p.onDrift (.serverOnDrift id p.onDrift)
  if p.fingerprint ≠ [] then
    let _ ← (parseFingerprint p.fingerprint).mapError (.fingerprint id p.fingerprint)
    .ok ()
  else .ok ()

/-- `Config.Validate`; the nil section is `none`. -/
def Config.validate (c : Option Config) : Except ConfigError Unit :=
  match c with
  | none => .ok ()
  | some c => do
    Except.require (c.servers.length ≠ 0) .noServers
    validateMode c.onDrift (.onDrift c.onDrift)
    forM c.servers fun e => e.2.validate e.1

/-- A pin that means what it reads as. -/
structure ServerPin.Valid (id : Bytes) (p : ServerPin) : Prop where
  id_ne_nil : id ≠ []
  id_trimmed : Utf8.trimSpace id = id
  onDrift : IsMode p.onDrift
  fingerprint : p.fingerprint ≠ [] → ∃ f, parseFingerprint p.fingerprint = .ok f

theorem ServerPin.validate_eq_ok_iff {id : Bytes} {p : ServerPin} :
    p.validate id = .ok () ↔ p.Valid id := by
  have hfingerprint : (if p.fingerprint ≠ [] then do
        let _ ← (parseFingerprint p.fingerprint).mapError (.fingerprint id p.fingerprint)
        .ok ()
      else .ok () : Except ConfigError Unit) = .ok () ↔
        (p.fingerprint ≠ [] → ∃ f, parseFingerprint p.fingerprint = .ok f) := by
    by_cases hempty : p.fingerprint = []
    · simp [hempty]
    · simp [hempty, Except.bind_eq_ok_iff, Except.mapError_eq_ok_iff]
  simp only [ServerPin.validate, validateMode, Except.check_bind_eq_ok_iff, Except.require_eq_ok_iff,
    hfingerprint]
  constructor
  · rintro ⟨hne, htrim, hmode, hpin⟩
    exact ⟨htrim ▸ hne, htrim, hmode, hpin⟩
  · intro h
    exact ⟨h.id_trimmed.symm ▸ h.id_ne_nil, h.id_trimmed, h.onDrift, h.fingerprint⟩

/-- `Validate` accepts the absent section, and those that pin servers and mean what they read as. -/
theorem Config.validate_eq_ok_iff {c : Option Config} :
    Config.validate c = .ok () ↔ ∀ c' ∈ c, c'.servers ≠ [] ∧ IsMode c'.onDrift ∧
      ∀ e ∈ c'.servers, e.2.Valid e.1 := by
  cases c with
  | none => simp [Config.validate]
  | some c =>
      simp [Config.validate, validateMode, Except.check_bind_eq_ok_iff, Except.require_eq_ok_iff,
        Except.forM_eq_ok_iff, ServerPin.validate_eq_ok_iff]

end Sanad.Tooldefs
