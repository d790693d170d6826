import Sanad.Common.Base64Url
import Sanad.Common.Json.Fields
import Sanad.Common.Stateful
import Sanad.Delegation.Chain

/-! # Passports on the wire

`pkg/passport`: a passport is sent as a signed token of three parts, which are the base64 of a
header, of the claims and of the signature. The claims hold the scope of the passport, and a summary
of its delegation chain.
-/

namespace Sanad.Passport

open Json

/-! ## The summary of a chain -/

/-- `digestHop`: the canonical form of a hop for hashing. -/
def digestHop (h : DelegationHop) : Json :=
  .ofFields (
    [("delegator", .ofString h.delegator), ("delegate", .ofString h.delegate),
      ("tools", .array ((Delegation.sortedCopy h.scope.tools).map .ofString))] ++
    Delegation.budgetFields h.scope.budget ++ Delegation.bytesFields "sig" h.signature)

/-- `DelegationChain.Digest` of a chain that has hops, over SHA-256. -/
def digest (sha256 : Bytes → Bytes) (c : DelegationChain) : Bytes :=
  sha256 (render (.array (c.hops.map digestHop)))

/-- `DelegationChain.Ref`: none for an absent or empty chain. -/
def ref (sha256 : Bytes → Bytes) (c : Option DelegationChain) : Option DelegationRef :=
  (c.filter fun c => c.hops.length ≠ 0).map fun c =>
    ⟨c.path, Base64Url.encode (digest sha256 c)⟩

/-! ## Headers and claims -/

/-- `alg` -/
def alg : Bytes := Bytes.ascii "EdDSA"

/-- `typ` -/
def typ : Bytes := Bytes.ascii "passport+jwt"

/-- `header` -/
structure Header where
  alg : Bytes
  typ : Bytes
  kid : Bytes
  deriving DecidableEq, Repr

/-- `Claims` -/
structure Claims where
  id : Bytes
  issuer : Bytes
  principal : Bytes
  audience : Bytes
  agent : Bytes
  tools : List Bytes
  budget : Option Budget
  delegation : Option DelegationRef
  issuedAt : ℤ
  expiresAt : ℤ
  deriving DecidableEq, Repr

/-- A `string` field with `omitempty`. -/
def textFields (name : String) (s : Bytes) : List (String × Json) :=
  if s.length = 0 then [] else [(name, .ofString s)]

/-- The field `scope`, with `omitempty`. -/
def scopeFields (tools : List Bytes) : List (String × Json) :=
  if tools.length = 0 then [] else [("scope", .array (tools.map .ofString))]

/-- The field `dlg`, with `omitempty`. An empty path is the nil one. -/
def refFields : Option DelegationRef → List (String × Json)
  | none => []
  | some r =>
    [("dlg", .ofFields (
      [("path", if r.path.length = 0 then .null else .array (r.path.map .ofString))] ++
      textFields "dgst" r.digest))]

/-- A header as JSON. -/
def Header.json (h : Header) : Json :=
  .ofFields ([("alg", .ofString h.alg), ("typ", .ofString h.typ)] ++ textFields "kid" h.kid)

/-- The members of the claims. -/
def Claims.fields (c : Claims) : List (String × Json) :=
  [("jti", .ofString c.id), ("iss", .ofString c.issuer), ("sub", .ofString c.principal),
    ("aud", .ofString c.audience)] ++
  textFields "agent" c.agent ++ scopeFields c.tools ++ Delegation.budgetFields c.budget ++
  refFields c.delegation ++ [("iat", .ofInt c.issuedAt), ("exp", .ofInt c.expiresAt)]

/-- The claims as JSON. -/
def Claims.json (c : Claims) : Json := .ofFields c.fields

/-- The fields of `header`. -/
inductive HeaderField where
  | alg
  | typ
  | kid

def headerFields : List (Bytes × HeaderField) :=
  [(Bytes.ascii "alg", .alg), (Bytes.ascii "typ", .typ), (Bytes.ascii "kid", .kid)]

/-- Decode a member into its field. -/
def Header.store (f : HeaderField) (v : Json) (h : Header) : Option Header :=
  match f with
  | .alg => (decodeText h.alg v).map fun s => { h with alg := s }
  | .typ => (decodeText h.typ v).map fun s => { h with typ := s }
  | .kid => (decodeText h.kid v).map fun s => { h with kid := s }

/-- `json.Unmarshal` of a header. -/
def Header.decode (b : Bytes) : Option Header :=
  (unmarshal b).bind (decodeRecord headerFields Header.store ⟨[], [], []⟩)

/-- The fields of `types.Budget`. -/
inductive BudgetField where
  | limit
  | unit

/-- Decode a value into a budget. -/
def decodeBudget : Budget → Json → Option Budget :=
  decodeRecord [(Bytes.ascii "Limit", BudgetField.limit), (Bytes.ascii "Unit", BudgetField.unit)]
    fun f v b =>
      match f with
      | .limit => (decodeInt64 b.limit v).map fun z => { b with limit := z }
      | .unit => (decodeText b.unit v).map fun s => { b with unit := s }

/-- The fields of `types.DelegationRef`. -/
inductive RefField where
  | path
  | digest

/-- Decode a value into a summary. -/
def decodeRef : DelegationRef → Json → Option DelegationRef :=
  decodeRecord [(Bytes.ascii "path", RefField.path), (Bytes.ascii "dgst", RefField.digest)]
    fun f v r =>
      match f with
      | .path => (decodeTexts v).map fun path => { r with path := path }
      | .digest => (decodeText r.digest v).map fun s => { r with digest := s }

/-- The fields of `Claims`. -/
inductive ClaimsField where
  | id
  | issuer
  | principal
  | audience
  | agent
  | tools
  | budget
  | delegation
  | issuedAt
  | expiresAt
  deriving DecidableEq

def claimsFields : List (Bytes × ClaimsField) :=
  [(Bytes.ascii "jti", .id), (Bytes.ascii "iss", .issuer), (Bytes.ascii "sub", .principal),
    (Bytes.ascii "aud", .audience), (Bytes.ascii "agent", .agent), (Bytes.ascii "scope", .tools),
    (Bytes.ascii "budget", .budget), (Bytes.ascii "dlg", .delegation),
    (Bytes.ascii "iat", .issuedAt), (Bytes.ascii "exp", .expiresAt)]

/-- Decode a member into its field. -/
def Claims.store (f : ClaimsField) (v : Json) (c : Claims) : Option Claims :=
  match f with
  | .id => (decodeText c.id v).map fun s => { c with id := s }
  | .issuer => (decodeText c.issuer v).map fun s => { c with issuer := s }
  | .principal => (decodeText c.principal v).map fun s => { c with principal := s }
  | .audience => (decodeText c.audience v).map fun s => { c with audience := s }
  | .agent => (decodeText c.agent v).map fun s => { c with agent := s }
  | .tools => (decodeTexts v).map fun tools => { c with tools := tools }
  | .budget => (decodePointer decodeBudget ⟨0, []⟩ c.budget v).map fun b => { c with budget := b }
  | .delegation =>
    (decodePointer decodeRef ⟨[], []⟩ c.delegation v).map fun r => { c with delegation := r }
  | .issuedAt => (decodeInt64 c.issuedAt v).map fun z => { c with issuedAt := z }
  | .expiresAt => (decodeInt64 c.expiresAt v).map fun z => { c with expiresAt := z }

/-- The zero claims. -/
def Claims.zero : Claims := ⟨[], [], [], [], [], [], none, none, 0, 0⟩

/-- `json.Unmarshal` of a payload. -/
def Claims.decode (b : Bytes) : Option Claims :=
  (unmarshal b).bind (decodeRecord claimsFields Claims.store Claims.zero)

/-! ## Tokens -/

/-- The full stop between the parts of a token. -/
def dot : UInt8 := 0x2e

section

variable {σ : Type}

/-- `SignWith`: the signature is obtained from `sign`, which may keep a state of its own. -/
def signWith (kid : Bytes) (c : Claims) (sign : Bytes → EStateM Bytes σ Bytes) :
    EStateM Bytes σ Bytes := do
  let hb := render (Header.json ⟨alg, typ, kid⟩)
  let pb := render c.json
  let signingInput := Base64Url.encode hb ++ [dot] ++ Base64Url.encode pb
  let sig ← sign signingInput
  pure (signingInput ++ [dot] ++ Base64Url.encode sig)

/-- `Sign`: with a private key of 64 bytes. -/
def sign (S : SignatureScheme) (priv kid : Bytes) (c : Claims) : EStateM Bytes σ Bytes := do
  EStateM.require (priv.length = 64) (Bytes.ascii "passport: invalid Ed25519 private key")
  signWith kid c fun msg => pure (S.sign priv msg)

end

/-- The errors of `Verify` and `KeyID`. -/
inductive PassportError where
  /-- `passport: invalid Ed25519 public key` -/
  | invalidKey
  /-- `passport: malformed token` -/
  | malformed
  /-- `passport: bad header encoding: %w` -/
  | headerEncoding
  /-- `passport: bad header: %w` -/
  | badHeader
  /-- `passport: unexpected alg %q (only %s permitted)` -/
  | unexpectedAlg (alg : Bytes)
  /-- `passport: unexpected typ %q (only %s permitted)` -/
  | unexpectedTyp (typ : Bytes)
  /-- `passport: bad signature encoding: %w` -/
  | signatureEncoding
  /-- `passport: signature verification failed` -/
  | badSignature
  /-- `passport: bad payload encoding: %w` -/
  | payloadEncoding
  /-- `passport: bad payload: %w` -/
  | badPayload
  /-- `passport: wrong audience %q (want %q)` -/
  | wrongAudience (audience expected : Bytes)
  /-- `passport: expired` -/
  | expired
  deriving DecidableEq, Repr

/-- The three parts of a token. -/
def parts (raw : Bytes) : Except PassportError (Bytes × Bytes × Bytes) :=
  match raw.splitOn dot with
  | [h, p, s] => .ok (h, p, s)
  | _ => .error .malformed

/-- The header of a token. -/
def decodeHeader (part : Bytes) : Except PassportError Header := do
  let hb ← Except.ofOption (Base64Url.decode part) .headerEncoding
  Except.ofOption (Header.decode hb) .badHeader

/-- `KeyID`: the key id of a token, which is not verified. -/
def keyID (raw : Bytes) : Except PassportError Bytes := do
  let (header, _, _) ← parts raw
  let h ← decodeHeader header
  .ok h.kid

/-- `Verify`: any expected audience is accepted if the expected one is empty. -/
def verify (S : SignatureScheme) (pub raw expectedAudience : Bytes) (now : ℤ) :
    Except PassportError Claims := do
  Except.require (pub.length = 32) .invalidKey
  let (header, payload, signature) ← parts raw
  let h ← decodeHeader header
  Except.require (h.alg = alg) (.unexpectedAlg h.alg)
  Except.require (h.typ = typ) (.unexpectedTyp h.typ)
  let sig ← Except.ofOption (Base64Url.decode signature) .signatureEncoding
  Except.require (S.verify pub (header ++ [dot] ++ payload) sig = true) .badSignature
  let pb ← Except.ofOption (Base64Url.decode payload) .payloadEncoding
  let c ← Except.ofOption (Claims.decode pb) .badPayload
  Except.require (expectedAudience = [] ∨ c.audience = expectedAudience)
    (.wrongAudience c.audience expectedAudience)
  Except.require (Time.unix now < c.expiresAt) .expired
  .ok c

/-! ## Passports and claims -/

/-- `ToClaims`: the chain is summarized, and a summary without a chain is carried through. -/
def toClaims (sha256 : Bytes → Bytes) (p : Passport) (issuer : Bytes) : Claims where
  id := p.id
  issuer := issuer
  principal := p.principalID
  audience := p.audience
  agent := p.agentID
  tools := p.scope.tools
  budget := p.scope.budget
  delegation := (ref sha256 p.delegation).or p.delegationRef
  issuedAt := Time.unix p.issuedAt
  expiresAt := Time.unix p.expiresAt

/-- `Claims.ToPassport`: the chain itself does not travel. -/
def Claims.toPassport (c : Claims) : Passport where
  id := c.id
  principalID := c.principal
  agentID := c.agent
  audience := c.audience
  scope := ⟨c.tools, c.budget⟩
  delegation := none
  delegationRef := c.delegation
  issuedAt := Time.ofUnix c.issuedAt
  expiresAt := Time.ofUnix c.expiresAt

/-! ## The scope of a token -/

/-- The names of the claims. -/
def claimNames : List String :=
  ["jti", "iss", "sub", "aud", "agent", "scope", "budget", "dlg", "iat", "exp"]

section

variable {p : String × Json}

theorem fst_of_mem_textFields {name : String} {t : Bytes} (h : p ∈ textFields name t) :
    p.1 = name := by
  rw [textFields] at h
  split at h <;> simp_all

theorem fst_of_mem_scopeFields {tools : List Bytes} (h : p ∈ scopeFields tools) : p.1 = "scope" := by
  rw [scopeFields] at h
  split at h <;> simp_all

theorem fst_of_mem_budgetFields {b : Option Budget} (h : p ∈ Delegation.budgetFields b) :
    p.1 = "budget" := by
  cases b <;> simp_all [Delegation.budgetFields]

theorem fst_of_mem_refFields {r : Option DelegationRef} (h : p ∈ refFields r) : p.1 = "dlg" := by
  cases r <;> simp_all [refFields]

theorem fst_of_mem_fields {c : Claims} (h : p ∈ c.fields) : p.1 ∈ claimNames := by
  simp only [Claims.fields, List.mem_append, List.mem_cons, List.not_mem_nil, or_false] at h
  rcases h with (((((rfl | rfl | rfl | rfl) | h) | h) | h) | h) | rfl | rfl
  case inl.inl.inl.inl.inr => simp [fst_of_mem_textFields h, claimNames]
  case inl.inl.inl.inr => simp [fst_of_mem_scopeFields h, claimNames]
  case inl.inl.inr => simp [fst_of_mem_budgetFields h, claimNames]
  case inl.inr => simp [fst_of_mem_refFields h, claimNames]
  all_goals simp [claimNames]

end

/-- The claims have one member of each name at most, up to case. -/
theorem variants_fields (c : Claims) {n : String} (hn : n ∈ claimNames) :
    variants (Bytes.ascii n) (c.fields.map fun p => (quote (Bytes.ascii p.1), p.2)) =
      (c.fields.filter fun p => p.1 = n).map Prod.snd := by
  have hnames : ∀ m ∈ claimNames, ∀ n ∈ claimNames,
      foldName (Bytes.ascii n) = foldName (unquote (quote (Bytes.ascii m))) ↔ m = n := by
    decide +kernel
  rw [variants, List.filter_map, List.map_map]
  congr 1
  refine List.filter_congr fun p hp => ?_
  simpa using hnames p.1 (fst_of_mem_fields hp) n hn

theorem filter_scope (c : Claims) : (c.fields.filter fun p => p.1 = "scope") = scopeFields c.tools := by
  have hagent : ((textFields "agent" c.agent).filter fun p => p.1 = "scope") = [] :=
    List.filter_eq_nil_iff.mpr fun p hp => by simp [fst_of_mem_textFields hp]
  have hscope : ((scopeFields c.tools).filter fun p => p.1 = "scope") = scopeFields c.tools :=
    List.filter_eq_self.mpr fun p hp => by simp [fst_of_mem_scopeFields hp]
  have hbudget : ((Delegation.budgetFields c.budget).filter fun p => p.1 = "scope") = [] :=
    List.filter_eq_nil_iff.mpr fun p hp => by simp [fst_of_mem_budgetFields hp]
  have href : ((refFields c.delegation).filter fun p => p.1 = "scope") = [] :=
    List.filter_eq_nil_iff.mpr fun p hp => by simp [fst_of_mem_refFields hp]
  simp [Claims.fields, List.filter_append, hagent, hscope, hbudget, href]

theorem eq_of_unmarshal_render {v v' : Json} (h : unmarshal (render v) = some v') : v' = v := by
  rw [unmarshal, parse_render] at h
  dsimp only at h
  split at h
  · exact (Option.some.inj h).symm
  · cases h

/-- The tools of the claims come back from their text, up to their UTF-8. -/
theorem tools_of_decode {c c' : Claims} (h : Claims.decode (render c.json) = some c') :
    c'.tools = c.tools.map fun t => unquote (quote t) := by
  obtain ⟨v, hv, hdec⟩ := Option.bind_eq_some_iff.mp h
  rw [eq_of_unmarshal_render hv] at hdec
  have hpart := decodeRecord_part (by decide +kernel) (by decide +kernel)
    (show (Bytes.ascii "scope", ClaimsField.tools) ∈ claimsFields by decide +kernel) Claims.tools
    (fun v _ => decodeTexts v) ?_ ?_ hdec
  · rw [variants_fields c (by decide), filter_scope, scopeFields] at hpart
    by_cases htools : c.tools = []
    · simpa [htools, Claims.zero] using hpart.symm
    · rw [if_neg (by simpa using htools)] at hpart
      have hdecode : decodeTexts (.array (c.tools.map .ofString)) = some c'.tools := by
        simpa using hpart
      rw [decodeTexts_strings] at hdecode
      exact (Option.some.inj hdecode).symm
  · intro v r r' hstore
    obtain ⟨tools, htools, rfl⟩ := Option.map_eq_some_iff.mp hstore
    exact htools
  · intro g v r r' hg hstore
    cases g with
    | tools => exact absurd rfl hg
    | _ =>
        obtain ⟨_, _, rfl⟩ := Option.map_eq_some_iff.mp hstore
        rfl

theorem dot_not_mem_encode (b : Bytes) : dot ∉ Base64Url.encode b := by
  have hall : dot ∉ Base64Url.alphabet := by decide +kernel
  exact fun h => hall (Base64Url.encode_mem b dot h)

/-- The parts of a token are the parts it was made of. -/
theorem parts_token (hb pb sig : Bytes) :
    parts (Base64Url.encode hb ++ [dot] ++ Base64Url.encode pb ++ [dot] ++ Base64Url.encode sig) =
      .ok (Base64Url.encode hb, Base64Url.encode pb, Base64Url.encode sig) := by
  have htoken :
      Base64Url.encode hb ++ [dot] ++ Base64Url.encode pb ++ [dot] ++ Base64Url.encode sig =
        [dot].intercalate [Base64Url.encode hb, Base64Url.encode pb, Base64Url.encode sig] := by
    simp [List.intercalate]
  rw [parts, htoken, List.splitOn_intercalate dot (by simp [dot_not_mem_encode]) (by simp)]

/-- The claims of a verified token are those that were signed, up to what is lost on the way. -/
theorem decode_of_verify {σ : Type} {S : SignatureScheme} {kid pub token audience : Bytes}
    {c c' : Claims} {sign : Bytes → EStateM Bytes σ Bytes} {w w' : σ} {now : ℤ}
    (hsign : signWith kid c sign w = .ok token w')
    (h : verify S pub token audience now = .ok c') : Claims.decode (render c.json) = some c' := by
  simp only [signWith, EStateM.bind_eq_ok_iff, EStateM.pure_eq_ok_iff] at hsign
  obtain ⟨sig, w₁, -, rfl, -⟩ := hsign
  simp only [verify, Except.bind_eq_ok_iff, Except.require_eq_ok_iff, Except.ofOption_eq_ok_iff,
    parts_token] at h
  obtain ⟨-, -, -, ⟨⟩, -, -, -, -, -, -, -, -, -, -, pb, hpb, c₁, hc₁, -, -, -, -, hc'⟩ := h
  rw [Base64Url.decode_encode] at hpb
  cases hpb
  cases hc'
  exact hc₁

end Sanad.Passport
