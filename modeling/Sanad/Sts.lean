import Sanad.Passport
import Sanad.Workload

/-! # Minting passports

`sts`: the issuer, and the stage that mints the passport for a decided request and leaves nothing of
the caller's headers but an allowlist.
-/

namespace Sanad.Sts

open Gateway

/-! ## The issuer -/

/-- `DefaultTTL` -/
def defaultTTL : ℤ := 120 * Time.second

/-- `Config` -/
structure Config where
  issuer : Bytes
  ttl : ℤ

/-- `IssueRequest` -/
structure IssueRequest where
  principal : Option Principal
  agent : Option Agent
  audience : Bytes
  scope : Scope
  delegation : Option DelegationChain

/-- `Minted` -/
structure Minted where
  passport : Passport
  token : Bytes
  deriving DecidableEq, Repr

/-- The errors of the package. -/
inductive StsError where
  /-- `sts: no authenticated principal to mint for` -/
  | noPrincipal
  /-- `sts: missing principal` -/
  | missingPrincipal
  /-- `sts: missing audience` -/
  | missingAudience
  /-- An error of the random source or of the signer. -/
  | other (cause : Bytes)
  deriving DecidableEq, Repr

/-- `EdDSAIssuer`, over the random source and the signer. -/
structure EdDSAIssuer (σ : Type) where
  cfg : Config
  now : Workload.Clock σ
  /-- `newID` -/
  newID : EStateM Bytes σ Bytes
  /-- `Signer.Sign` of `passport.ToClaims`, for an issuer name. -/
  sign : Passport → Bytes → EStateM Bytes σ Bytes

variable {σ : Type}

/-- `Signer`: a key in the process, or one behind a function that signs, as of a KMS. -/
inductive Signer (σ : Type) where
  | localSigner (kid priv : Bytes)
  | remoteSigner (kid : Bytes) (sign : Bytes → EStateM Bytes σ Bytes)

/-- `Signer.Sign` of `passport.ToClaims`. -/
def Signer.sign (S : SignatureScheme) (sha256 : Bytes → Bytes) (signer : Signer σ) (p : Passport)
    (issuer : Bytes) : EStateM Bytes σ Bytes :=
  match signer with
  | .localSigner kid priv => Passport.sign S priv kid (p.toClaims sha256 issuer)
  | .remoteSigner kid sign => Passport.signWith kid (p.toClaims sha256 issuer) sign

/-- `New`: the TTL defaults to `DefaultTTL`. -/
def EdDSAIssuer.new (cfg : Config) (now : Workload.Clock σ) (newID : EStateM Bytes σ Bytes)
    (sign : Passport → Bytes → EStateM Bytes σ Bytes) : EdDSAIssuer σ :=
  ⟨{ cfg with ttl := if cfg.ttl ≤ 0 then defaultTTL else cfg.ttl }, now, newID, sign⟩

/-- `EdDSAIssuer.Issue` -/
def EdDSAIssuer.issue (i : EdDSAIssuer σ) (r : IssueRequest) : EStateM StsError σ Minted := do
  let principal ← EStateM.liftOption (r.principal.filter fun p => p.id ≠ []) .missingPrincipal
  EStateM.require (r.audience ≠ []) .missingAudience
  let now ← EStateM.convertError Empty.elim i.now
  let jti ← EStateM.convertError .other i.newID
  let p : Passport :=
    { id := jti
      principalID := principal.id
      agentID := (r.agent.map Agent.id).getD []
      audience := r.audience
      scope := r.scope
      delegation := r.delegation
      issuedAt := now
      expiresAt := now + i.cfg.ttl }
  let tok ← EStateM.convertError .other (i.sign p i.cfg.issuer)
  pure ⟨p, tok⟩

/-! ## The stage -/

/-- `forwardedHeaders` -/
def forwardedHeaders : List Bytes :=
  [Bytes.ascii "Accept", Bytes.ascii "Content-Type", Bytes.ascii "Accept-Encoding",
    Bytes.ascii "User-Agent", Bytes.ascii "Mcp-Session-Id", Bytes.ascii "MCP-Protocol-Version",
    Bytes.ascii "Last-Event-ID", Bytes.ascii "Connection", Bytes.ascii "Upgrade", Bytes.ascii "Te"]

/-- The punctuation of a header field name. -/
def tokenPunctuation : Bytes :=
  [0x21, 0x23, 0x24, 0x25, 0x26, 0x27, 0x2a, 0x2b, 0x2d, 0x2e, 0x5e, 0x5f, 0x60, 0x7c, 0x7e]

/-- Upper case at the start and after a hyphen, lower case elsewhere. -/
def capitalize : Bool → Bytes → Bytes
  | _, [] => []
  | upper, c :: rest =>
    (if upper then (if 0x61 ≤ c ∧ c ≤ 0x7a then c - 0x20 else c) else lower c) ::
      capitalize (c = 0x2d) rest

/-- `http.CanonicalHeaderKey`: what is no field name is left alone. -/
def canonicalHeaderKey (name : Bytes) : Bytes :=
  if name.all fun c => Workload.isAlphanumeric c || c ∈ tokenPunctuation then capitalize true name
  else name

/-- The headers that are forwarded, given those added by `WithForwardHeaders`. -/
def allow (forward : List Bytes) : List Bytes :=
  (((forwardedHeaders ++ forward).map Utf8.trimSpace).filter (· ≠ [])).map canonicalHeaderKey

/-- Drop every header that is not allowed, and set the passport as the credential. -/
def isolate (forward : List Bytes) (token : Bytes) (http : HttpRequest) : HttpRequest :=
  let authorization := Bytes.ascii "Authorization"
  { http with
    header := (http.header.filter fun h => h.1 ∈ allow forward ∧ h.1 ≠ authorization) ++
      [(authorization, [Bytes.ascii "Bearer " ++ token])] }

/-- `MintStage` -/
def mintStage (issue : IssueRequest → EStateM StsError σ Minted) (forward : List Bytes) :
    Stage StsError σ where
  name := Bytes.ascii "mint"
  handle := do
    let req ← request
    EStateM.require (req.principal.isSome = true) .noPrincipal
    let m ← EStateM.onFst id (issue
      { principal := req.principal, agent := req.agent, audience := req.targetID, scope := req.scope,
        delegation := req.delegation })
    updateRequest fun r =>
      { r with passport := some m.passport, http := r.http.map (isolate forward m.token) }

/-! ## What a passport says -/

/-- A passport says what it was issued for. -/
theorem passport_of_issue {i : EdDSAIssuer σ} {r : IssueRequest} {m : Minted} {w w' : σ}
    (h : i.issue r w = .ok m w') :
    ∃ p, r.principal = some p ∧ m.passport.principalID = p.id ∧
      m.passport.agentID = (r.agent.map Agent.id).getD [] ∧ m.passport.audience = r.audience ∧
      m.passport.scope = r.scope ∧ m.passport.delegation = r.delegation := by
  simp only [EdDSAIssuer.issue, EStateM.liftOption_bind_eq_ok_iff, EStateM.require_bind_eq_ok_iff,
    EStateM.convertError_bind_eq_ok_iff, EStateM.pure_eq_ok_iff, Option.filter_eq_some_iff] at h
  obtain ⟨p, ⟨hp, -⟩, -, -, -, -, -, -, -, -, -, -, rfl, -⟩ := h
  exact ⟨p, hp, rfl, rfl, rfl, rfl, rfl⟩

/-- A passport is valid from the issuer's reading of the clock, for the configured time. -/
theorem lifetime_of_issue {i : EdDSAIssuer σ} {r : IssueRequest} {m : Minted} {w w₁ w' : σ} {now : ℤ}
    (hnow : i.now w = .ok now w₁) (h : i.issue r w = .ok m w') :
    m.passport.issuedAt = now ∧ m.passport.expiresAt = now + i.cfg.ttl := by
  simp only [EdDSAIssuer.issue, EStateM.liftOption_bind_eq_ok_iff, EStateM.require_bind_eq_ok_iff,
    EStateM.convertError_bind_eq_ok_iff, EStateM.pure_eq_ok_iff] at h
  obtain ⟨-, -, -, now', w₂, hnow', -, -, -, -, -, -, rfl, -⟩ := h
  rw [hnow] at hnow'
  cases hnow'
  exact ⟨rfl, rfl⟩

theorem ttl_new_pos (cfg : Config) (now : Workload.Clock σ) (newID : EStateM Bytes σ Bytes)
    (sign : Passport → Bytes → EStateM Bytes σ Bytes) :
    0 < (EdDSAIssuer.new cfg now newID sign).cfg.ttl := by
  show 0 < if cfg.ttl ≤ 0 then defaultTTL else cfg.ttl
  split
  · decide
  · omega

/-- The token of a passport is the signed form of its claims. -/
theorem token_of_issue {i : EdDSAIssuer σ} {r : IssueRequest} {m : Minted} {w w' : σ}
    (h : i.issue r w = .ok m w') :
    ∃ w₁ w₂, i.sign m.passport i.cfg.issuer w₁ = .ok m.token w₂ := by
  simp only [EdDSAIssuer.issue, EStateM.liftOption_bind_eq_ok_iff, EStateM.require_bind_eq_ok_iff,
    EStateM.convertError_bind_eq_ok_iff, EStateM.pure_eq_ok_iff] at h
  obtain ⟨_, -, -, _, _, -, _, w₁, -, _, w₂, hsign, rfl, -⟩ := h
  exact ⟨w₁, w₂, hsign⟩

/-- Either kind of signer wraps a signature over the claims. -/
theorem signWith_of_sign {S : SignatureScheme} {sha256 : Bytes → Bytes} {signer : Signer σ}
    {p : Passport} {issuer token : Bytes} {w w' : σ}
    (h : signer.sign S sha256 p issuer w = .ok token w') :
    ∃ kid sign, Passport.signWith kid (p.toClaims sha256 issuer) sign w = .ok token w' := by
  cases signer with
  | localSigner kid priv =>
      rw [Signer.sign, Passport.sign, EStateM.require_bind_eq_ok_iff] at h
      exact ⟨kid, _, h.2⟩
  | remoteSigner kid sign => exact ⟨kid, sign, h⟩

/-- The passport of the stage says what the request has established. -/
theorem handle_mintStage {i : EdDSAIssuer σ} {forward : List Bytes} {w w' : σ} {req req' : Request}
    (h : (mintStage i.issue forward).handle (w, req) = .ok () (w', req')) :
    ∃ p P, req.principal = some p ∧ req'.passport = some P ∧ P.principalID = p.id ∧
      P.agentID = (req.agent.map Agent.id).getD [] ∧ P.audience = req.targetID ∧
      P.scope = req.scope ∧ P.delegation = req.delegation := by
  simp only [mintStage, request_bind_eq_ok_iff, EStateM.require_bind_eq_ok_iff,
    EStateM.onFst_bind_eq_ok_iff, updateRequest_eq_ok_iff, Prod.mk.injEq] at h
  obtain ⟨-, m, w₁, hissue, -, rfl⟩ := h
  obtain ⟨p, hp, hpassport⟩ := passport_of_issue hissue
  exact ⟨p, m.passport, hp, rfl, hpassport⟩

theorem lifetime_of_mintStage {i : EdDSAIssuer σ} {forward : List Bytes} {w w₁ w' : σ} {now : ℤ}
    {req req' : Request} (hnow : i.now w = .ok now w₁)
    (h : (mintStage i.issue forward).handle (w, req) = .ok () (w', req')) :
    ∃ P, req'.passport = some P ∧ P.issuedAt = now ∧ P.expiresAt = now + i.cfg.ttl := by
  simp only [mintStage, request_bind_eq_ok_iff, EStateM.require_bind_eq_ok_iff,
    EStateM.onFst_bind_eq_ok_iff, updateRequest_eq_ok_iff, Prod.mk.injEq] at h
  obtain ⟨-, m, w₁, hissue, -, rfl⟩ := h
  exact ⟨m.passport, rfl, lifetime_of_issue hnow hissue⟩

end Sanad.Sts
