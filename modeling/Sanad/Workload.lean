import Sanad.Common.Json.Encode
import Sanad.Delegation.Chain
import Sanad.Gateway

/-! # Workload credentials and the instance stage

`workload`: the credential that binds an agent id to an instance key, the store of verified keys
that delegation reads, and the stage that authenticates the calling instance.
-/

namespace Sanad.Workload

open Gateway

/-! ## Credentials -/

/-- `MaxAgentIDLen` -/
def maxAgentIDLen : ℕ := 128

/-- The errors of the package. -/
inductive WorkloadError where
  /-- `workload: agent id is empty` -/
  | emptyAgentID
  /-- `workload: agent id is longer than %d bytes` -/
  | agentIDTooLong (maximum : ℕ)
  /-- `workload: agent id %q must be alphanumerics, '.', '_' or '-' and start with an alphanumeric
  (principal ids such as did:key:... are a different namespace and cannot be used to name an agent)`
  -/
  | badAgentID (id : Bytes)
  /-- `workload: invalid CA public key` -/
  | invalidCAKey
  /-- `workload: credential has invalid public key` -/
  | invalidPublicKey
  /-- `workload: bad credential signature` -/
  | badSignature
  /-- `workload: credential not yet valid` -/
  | notYetValid
  /-- `workload: credential expired` -/
  | expired
  /-- `workload: no request to authenticate` -/
  | noRequest
  /-- `workload: missing instance credential` -/
  | missingCredential
  /-- `workload: bad credential encoding: %w` or `workload: bad credential: %w` -/
  | badCredential (cause : Bytes)
  /-- `workload: missing principal token to bind the instance proof` -/
  | missingToken
  /-- `workload: request carries a body the instance proof cannot cover` -/
  | uncoveredBody
  /-- `workload: expected exactly one %s header, got %d` -/
  | proofHeaders (name : Bytes) (count : ℕ)
  /-- `workload: instance proof of possession failed: %w` -/
  | proofFailed (cause : Bytes)
  deriving DecidableEq, Repr

/-- An ASCII letter or digit. -/
def isAlphanumeric (c : UInt8) : Bool :=
  (0x61 ≤ c && c ≤ 0x7a) || (0x41 ≤ c && c ≤ 0x5a) || (0x30 ≤ c && c ≤ 0x39)

/-- A byte of an agent id; punctuation may not come first. -/
def isAgentIDByte (first : Bool) (c : UInt8) : Bool :=
  isAlphanumeric c || (!first && (c = 0x2e || c = 0x5f || c = 0x2d))

/-- `ValidAgentID` -/
def validAgentID (id : Bytes) : Except WorkloadError Unit := do
  Except.require (id ≠ []) .emptyAgentID
  Except.require (id.length ≤ maxAgentIDLen) (.agentIDTooLong maxAgentIDLen)
  Except.require (id.head?.all (isAgentIDByte true) && id.tail.all (isAgentIDByte false))
    (.badAgentID id)

/-- `Credential` -/
structure Credential where
  agentID : Bytes
  publicKey : Bytes
  issuedAt : ℤ
  notAfter : ℤ
  keyID : Bytes
  signature : Bytes
  deriving DecidableEq, Repr

/-- `canonical`: the deterministic signing input for a credential. -/
def canonical (c : Credential) : Bytes :=
  Json.render (.ofFields
    [("agent_id", .ofString c.agentID), ("pub", .ofBytes c.publicKey),
      ("iat", .ofInt (Time.unix c.issuedAt)), ("exp", .ofInt (Time.unix c.notAfter)),
      ("kid", .ofString c.keyID)])

/-- `Verify`: the CA's signature and the validity window. -/
def verify (S : SignatureScheme) (caPub : Bytes) (c : Credential) (now : ℤ) :
    Except WorkloadError Unit := do
  Except.require (caPub.length = Sigctx.publicKeySize) .invalidCAKey
  Except.require (c.publicKey.length = Sigctx.publicKeySize) .invalidPublicKey
  validAgentID c.agentID
  Except.require (Sigctx.verify S .workloadCredential caPub (canonical c) c.signature = true)
    .badSignature
  Except.require (c.issuedAt ≤ now) .notYetValid
  Except.require (now < c.notAfter) .expired

/-! ## The key store -/

/-- `keyEntry`: a zero expiry stands for no bound. -/
structure KeyEntry where
  pub : Bytes
  notAfter : ℤ
  deriving DecidableEq, Repr

/-- `KeyStore`: agents and principals are separate namespaces. -/
structure KeyStore where
  caPub : Bytes
  agents : List (Bytes × KeyEntry)
  principals : List (Bytes × KeyEntry)
  deriving DecidableEq, Repr

/-- `NewKeyStore` -/
def KeyStore.new (caPub : Bytes) : KeyStore := ⟨caPub, [], []⟩

/-- A write to one of the maps. -/
def insertKey (m : List (Bytes × KeyEntry)) (id : Bytes) (e : KeyEntry) : List (Bytes × KeyEntry) :=
  (id, e) :: m.filter fun kv => kv.1 ≠ id

/-- `KeyStore.Add`: cache the key of a verified credential, as an agent's. -/
def KeyStore.add (S : SignatureScheme) (s : KeyStore) (c : Credential) (now : ℤ) :
    Except WorkloadError KeyStore := do
  verify S s.caPub c now
  .ok { s with agents := insertKey s.agents c.agentID ⟨c.publicKey, c.notAfter⟩ }

/-- `KeyStore.AddPrincipalKey`: an empty id is ignored. -/
def KeyStore.addPrincipalKey (s : KeyStore) (id pub : Bytes) (notAfter : ℤ) : KeyStore :=
  if id = [] then s else { s with principals := insertKey s.principals id ⟨pub, notAfter⟩ }

/-- `KeyStore.lookup`: an expired key is treated as unknown. -/
def lookup (m : List (Bytes × KeyEntry)) (now : ℤ) (id : Bytes) : Option Bytes :=
  match m.lookup id with
  | none => none
  | some e => if e.notAfter ≠ 0 ∧ ¬now < e.notAfter then none else some e.pub

/-- `KeyStore.PrincipalKey` and `KeyStore.AgentKey`: the store as a `delegation.KeyRegistry`. -/
def KeyStore.registry (s : KeyStore) (now : ℤ) : Delegation.KeyRegistry where
  principalKey := lookup s.principals now
  agentKey := lookup s.agents now

/-! ## The instance stage -/

/-- A clock that the process reads. -/
abbrev Clock (σ : Type) := EStateM Empty σ ℤ

/-- The world of the gateway's stages: the key store, which one stage writes and the next one reads,
and everything else. -/
structure World (τ : Type) where
  keys : KeyStore
  rest : τ

/-- `HeaderCredential` -/
def headerCredential : Bytes := Bytes.ascii "X-Agent-Credential"

/-- `HeaderProof` -/
def headerProof : Bytes := Bytes.ascii "X-Agent-Proof"

/-- What the stage is set up with: the CA key, and the parts of it that other packages implement. -/
structure InstanceConfig (τ : Type) where
  caPub : Bytes
  clock : Clock (World τ)
  /-- `DecodeCredential` -/
  decodeCredential : Bytes → Except Bytes Credential
  /-- `pop.Verifier.Check`: the instance key, the proof, the request, its body and the token. -/
  check : Bytes → Bytes → HttpRequest → Option Bytes → Bytes → EStateM Bytes (World τ) Unit

variable {τ : Type}

/-- `InstanceStage` -/
def instanceStage (S : SignatureScheme) (cfg : InstanceConfig τ) : Stage WorkloadError (World τ) where
  name := Bytes.ascii "instance"
  handle := do
    let req ← request
    let http ← EStateM.liftOption req.http .noRequest
    let raw := http.get headerCredential
    EStateM.require (raw ≠ []) .missingCredential
    let cred ← EStateM.liftExcept ((cfg.decodeCredential raw).mapError .badCredential)
    let now ← EStateM.onFst Empty.elim cfg.clock
    EStateM.liftExcept (verify S cfg.caPub cred now)
    let token ← EStateM.liftOption http.bearer .missingToken
    EStateM.require (¬(req.body = none ∧ http.contentLength ≠ 0 ∧ http.hasBody = true)) .uncoveredBody
    EStateM.require ((http.values headerProof).length = 1)
      (.proofHeaders headerProof (http.values headerProof).length)
    EStateM.onFst .proofFailed (cfg.check cred.publicKey (http.get headerProof) http req.body token)
    -- the store verifies the credential again, with its own clock
    let now ← EStateM.onFst Empty.elim cfg.clock
    let w ← EStateM.read Prod.fst
    let keys ← EStateM.liftExcept (w.keys.add S cred now)
    EStateM.update fun s => ({ s.1 with keys := keys }, s.2)
    let pid := (req.principal.map Principal.id).getD []
    updateRequest fun r => { r with agent := some ⟨cred.agentID, pid, [], false, 0⟩ }

/-- What makes `id` the authenticated instance behind a request: the credential it presents
verifies, names `id`, and its key made the proof of possession for the request, its body and its
token. -/
def Authenticated (S : SignatureScheme) (cfg : InstanceConfig τ) (req : Request) (id : Bytes) : Prop :=
  ∃ http cred now token w w', req.http = some http ∧ http.bearer = some token ∧
    cfg.decodeCredential (http.get headerCredential) = .ok cred ∧
    verify S cfg.caPub cred now = .ok () ∧
    cfg.check cred.publicKey (http.get headerProof) http req.body token w = .ok () w' ∧
    cred.agentID = id

/-- The stage sets the agent to the authenticated instance, of no blueprint, and nothing else. -/
theorem handle_instanceStage {S : SignatureScheme} {cfg : InstanceConfig τ} {w w' : World τ}
    {req req' : Request} (h : (instanceStage S cfg).handle (w, req) = .ok () (w', req')) :
    ∃ agent, Authenticated S cfg req agent.id ∧ agent.blueprintID = [] ∧
      req' = { req with agent := some agent } := by
  simp only [instanceStage, request_bind_eq_ok_iff, EStateM.liftOption_bind_eq_ok_iff,
    EStateM.onFst_bind_eq_ok_iff, EStateM.require_bind_eq_ok_iff, EStateM.liftExcept_bind_eq_ok_iff,
    EStateM.read_bind_eq_ok_iff, EStateM.update_bind_eq_ok_iff, updateRequest_eq_ok_iff,
    Except.mapError_eq_ok_iff, Prod.mk.injEq] at h
  obtain ⟨http, hhttp, -, cred, hcred, now, w₁, -, ⟨⟩, hverify, token, htoken, -, -, ⟨⟩, w₂, hproof,
    -, -, -, -, -, -, rfl⟩ := h
  exact ⟨_, ⟨http, cred, now, token, w₁, w₂, hhttp, htoken, hcred, hverify, hproof, rfl⟩, rfl,
    rfl⟩

end Sanad.Workload
