import Mathlib.Data.List.AList
import Sanad.Common.Transition
import Sanad.Workload

/-! # Enrollment

`workload/workload.go`: an instance fetches a nonce from the authority, and presents evidence over
the nonce and its public key; the attestor, with its bootstrap tokens, names the agent, and the
authority signs a credential.

Nonces and token budgets are two tables with a lock each, and `Issue` goes through them in separate
steps. Between the steps of one call the other calls go on, tokens are registered again and time
passes.
-/

namespace Sanad.Workload

/-- `DefaultTTL` -/
def defaultTTL : ℤ := 3600 * Time.second

/-- `NonceTTL` -/
def nonceTTL : ℤ := 120 * Time.second

def nonceSize : ℕ := 32

def maxOutstandingNonces : ℕ := 4096

/-- `DefaultTokenUses` -/
def defaultTokenUses : ℤ := 1

/-- `DefaultTokenTTL` -/
def defaultTokenTTL : ℤ := 900 * Time.second

/-- The errors of `RegisterGrant`, `Attest`, `NewAuthority`, `Nonce` and `Issue`. -/
inductive EnrollError where
  /-- `workload: empty bootstrap token` -/
  | emptyToken
  /-- What `ValidAgentID` returns. -/
  | agentID (e : WorkloadError)
  /-- `workload: attestation rejected` -/
  | rejected
  /-- `workload: bootstrap token for %q expired at %s; register a fresh one` -/
  | tokenExpired (agentID : Bytes) (notAfter : ℤ)
  /-- `workload: bootstrap token for %q is spent (it authorized %d enrollment(s)); register a fresh
  one` -/
  | tokenSpent (agentID : Bytes) (uses : ℤ)
  /-- `workload: invalid CA private key` -/
  | invalidCAKey
  /-- `workload: too many outstanding enrollment nonces` -/
  | tooManyNonces
  /-- `workload: unknown or already-used enrollment nonce` -/
  | unknownNonce
  /-- `workload: enrollment nonce expired` -/
  | nonceExpired
  /-- `workload: invalid instance public key` -/
  | invalidInstanceKey
  deriving DecidableEq, Repr

/-! ## The attestor -/

/-- `TokenGrant` -/
structure TokenGrant where
  agentID : Bytes
  uses : ℤ
  ttl : ℤ
  deriving DecidableEq, Repr

/-- The grant with the defaults for a non-positive bound. -/
def TokenGrant.orDefault (g : TokenGrant) : TokenGrant where
  agentID := g.agentID
  uses := if g.uses ≤ 0 then defaultTokenUses else g.uses
  ttl := if g.ttl ≤ 0 then defaultTokenTTL else g.ttl

/-- `grant`: the remaining budget of a registered token. -/
structure Grant where
  agentID : Bytes
  left : ℤ
  uses : ℤ
  notAfter : ℤ
  deriving DecidableEq, Repr

/-- `TokenAttestor`: its map holds pointers, and `grants` is what has been allocated so far. A grant
stays allocated when its token is registered again. -/
structure TokenAttestor where
  tokens : AList fun _ : Bytes => ℕ
  grants : List Grant

/-- `NewTokenAttestor` -/
def TokenAttestor.new : TokenAttestor := ⟨∅, []⟩

/-- `RegisterGrant` -/
def TokenAttestor.registerGrant (t : TokenAttestor) (token : Bytes) (g : TokenGrant) (now : ℤ) :
    Except EnrollError TokenAttestor := do
  Except.require (token ≠ []) .emptyToken
  (validAgentID g.agentID).mapError .agentID
  let g := g.orDefault
  .ok ⟨t.tokens.insert token t.grants.length,
    t.grants ++ [⟨g.agentID, g.uses, g.uses, now + g.ttl⟩]⟩

section

-- HMAC-SHA-256 of a key and a message
variable (hmac : Bytes → Bytes → Bytes)

/-- The message of `BootstrapEvidence`, for a nonce and a key that are not nil. -/
def bootstrapMsg (nonce pub : Bytes) : Bytes :=
  Json.render (.ofFields [("ctx", .ofString Sigctx.Context.bootstrapEvidence.label),
    ("nonce", .ofBytes nonce), ("pub", .ofBytes pub)])

/-- `BootstrapEvidence` -/
def bootstrapEvidence (token nonce pub : Bytes) : Bytes := hmac token (bootstrapMsg nonce pub)

/-- The loop of `Attest`, over the tokens in the order in which the map gives them: the first token
whose evidence is the one presented, with the pointer to its grant. -/
def TokenAttestor.trial (t : TokenAttestor) (evidence nonce pubKey : Bytes) :
    List Bytes → Option (Bytes × ℕ × Grant)
  | [] => none
  | token :: order =>
    match t.tokens.lookup token with
    | none => t.trial evidence nonce pubKey order
    | some p =>
      match t.grants[p]? with
      | none => t.trial evidence nonce pubKey order
      | some g =>
        if g.agentID = [] ∨ evidence ≠ bootstrapEvidence hmac token nonce pubKey then
          t.trial evidence nonce pubKey order
        else some (token, p, g)

/-- `Attest`, which also returns the token that matched and the pointer to its grant. -/
def TokenAttestor.attest (t : TokenAttestor) (order : List Bytes) (evidence nonce pubKey : Bytes)
    (now : ℤ) : Except EnrollError ((Bytes × ℕ × Bytes) × TokenAttestor) := do
  Except.require (pubKey.length = Sigctx.publicKeySize ∧ nonce ≠ []) .rejected
  let (token, p, g) ← Except.ofOption (t.trial hmac evidence nonce pubKey order) .rejected
  Except.require (now < g.notAfter) (.tokenExpired g.agentID g.notAfter)
  Except.require (0 < g.left) (.tokenSpent g.agentID g.uses)
  .ok ((token, p, g.agentID), { t with grants := t.grants.set p { g with left := g.left - 1 } })

end

/-! ## The authority -/

/-- The outstanding nonces with their expiries. -/
abbrev Nonces := AList fun _ : Bytes => ℤ

/-- `Authority`: the fields that are set once. The limiter stands before its handlers only. -/
structure Authority where
  caPriv : Bytes
  kid : Bytes
  ttl : ℤ
  nonceTTL : ℤ

/-- `NewAuthority` -/
def Authority.new (caPriv kid : Bytes) (ttl : ℤ) : Except EnrollError Authority := do
  Except.require (caPriv.length = Sigctx.privateKeySize) .invalidCAKey
  .ok ⟨caPriv, kid, if ttl ≤ 0 then defaultTTL else ttl, Workload.nonceTTL⟩

/-- The nonces that have not expired. -/
def sweep (nonces : Nonces) (now : ℤ) : Nonces where
  entries := nonces.entries.filter fun e => now < e.2
  nodupKeys := nonces.nodupKeys.sublist List.filter_sublist

/-- The locked part of `Nonce`, with the nonce it has drawn and the time it has read. -/
def Authority.nonce (a : Authority) (nonces : Nonces) (n : Bytes) (now : ℤ) :
    Except EnrollError Bytes × Nonces :=
  let nonces := sweep nonces now
  if nonces.entries.length ≥ maxOutstandingNonces then (.error .tooManyNonces, nonces)
  else (.ok n, nonces.insert n (now + a.nonceTTL))

/-- `consumeNonce` -/
def consumeNonce (nonces : Nonces) (nonce : Bytes) (now : ℤ) : Except EnrollError Unit × Nonces :=
  match nonces.lookup nonce with
  | none => (.error .unknownNonce, nonces)
  | some exp => (Except.require (now < exp) .nonceExpired, nonces.erase nonce)

/-- The first steps of `Issue`, up to the attestation. -/
def present (nonces : Nonces) (nonce pubKey : Bytes) (now : ℤ) : Except EnrollError Unit × Nonces :=
  if pubKey.length ≠ Sigctx.publicKeySize then (.error .invalidInstanceKey, nonces)
  else consumeNonce nonces nonce now

/-- The last steps of `Issue`, after the attestation. -/
def Authority.sign (S : SignatureScheme) (a : Authority) (agentID pubKey : Bytes) (now : ℤ) :
    Except EnrollError Credential := do
  (validAgentID agentID).mapError .agentID
  let c : Credential :=
    { agentID, publicKey := pubKey, issuedAt := now, notAfter := now + a.ttl, keyID := a.kid
      signature := [] }
  .ok { c with signature := Sigctx.sign S .workloadCredential a.caPriv (canonical c) }

/-! ## Interleavings -/

/-- A call of `Issue` that has spent its nonce. -/
structure Presented where
  evidence : Bytes
  nonce : Bytes
  pubKey : Bytes
  consumedAt : ℤ

/-- A call of `Issue` that has been attested, by a token and its registration. -/
structure Attested extends Presented where
  token : Bytes
  registration : ℕ
  agentID : Bytes
  attestedAt : ℤ

/-- A call of `Issue` that has returned a credential. -/
structure Issued extends Attested where
  credential : Credential

/-- A successful call of `RegisterGrant`. The n-th one allocates the n-th grant. -/
structure Registration where
  token : Bytes
  grant : TokenGrant
  registeredAt : ℤ

/-- The number of enrollments that a registration allows. -/
def Registration.uses (r : Registration) : ℤ := r.grant.orDefault.uses

/-- The end of a registration's window. -/
def Registration.notAfter (r : Registration) : ℤ := r.registeredAt + r.grant.orDefault.ttl

/-- An authority with its attestor, the calls under way, and what has happened so far. -/
structure Enrollment where
  clock : ℤ
  nonces : Nonces
  attestor : TokenAttestor
  /-- The calls of `Nonce` that have not come to the table yet. -/
  drawn : List (Bytes × ℤ)
  consumed : List Presented
  attested : List Attested
  /-- All nonces drawn so far. -/
  draws : List Bytes
  /-- The nonces handed out so far, and when. -/
  handedOut : List (Bytes × ℤ)
  registrations : List Registration
  issued : List Issued

/-- A new authority, at some time. -/
def Enrollment.new (clock : ℤ) : Enrollment := ⟨clock, ∅, .new, [], [], [], [], [], [], []⟩

inductive EnrollEvent where
  | advance (d : ℕ)
  | registerGrant (token : Bytes) (g : TokenGrant)
  /-- `Nonce` draws a nonce and reads the clock. -/
  | drawNonce (n : Bytes)
  /-- The i-th call of `Nonce` goes on to the end. -/
  | nonce (i : ℕ)
  /-- `Issue` is called, and spends its nonce. -/
  | present (evidence nonce pubKey : Bytes)
  /-- The i-th call of `Issue` that waits for it is attested; the map gives the tokens in an order. -/
  | attest (i : ℕ) (order : List Bytes)
  /-- The i-th call of `Issue` that has been attested goes on to the end. -/
  | sign (i : ℕ)

/-- The effect of an event, none if there is no such call or order. A call that fails is gone. -/
def enrollStep (S : SignatureScheme) (hmac : Bytes → Bytes → Bytes) (a : Authority) (s : Enrollment) :
    EnrollEvent → Option Enrollment
  | .advance d => some { s with clock := s.clock + d }
  | .registerGrant token g =>
    match s.attestor.registerGrant token g s.clock with
    | .error _ => some s
    | .ok t =>
      some { s with attestor := t, registrations := s.registrations ++ [⟨token, g, s.clock⟩] }
  | .drawNonce n =>
    if n.length = nonceSize then
      some { s with drawn := s.drawn ++ [(n, s.clock)], draws := n :: s.draws }
    else none
  | .nonce i =>
    match s.drawn[i]? with
    | none => none
    | some (n, now) =>
      match a.nonce s.nonces n now with
      | (.error _, nonces) => some { s with nonces := nonces, drawn := s.drawn.eraseIdx i }
      | (.ok n, nonces) =>
        some { s with
          nonces := nonces
          drawn := s.drawn.eraseIdx i
          handedOut := (n, s.clock) :: s.handedOut }
  | .present evidence nonce pubKey =>
    match present s.nonces nonce pubKey s.clock with
    | (.error _, nonces) => some { s with nonces := nonces }
    | (.ok (), nonces) =>
      some { s with
        nonces := nonces
        consumed := s.consumed ++ [⟨evidence, nonce, pubKey, s.clock⟩] }
  | .attest i order =>
    match s.consumed[i]? with
    | none => none
    | some x =>
      if order.Perm s.attestor.tokens.keys then
        match s.attestor.attest hmac order x.evidence x.nonce x.pubKey s.clock with
        | .error _ => some { s with consumed := s.consumed.eraseIdx i }
        | .ok ((token, p, agentID), t) =>
          some { s with
            attestor := t
            consumed := s.consumed.eraseIdx i
            attested := s.attested ++ [⟨x, token, p, agentID, s.clock⟩] }
      else none
  | .sign i =>
    match s.attested[i]? with
    | none => none
    | some x =>
      match a.sign S x.agentID x.pubKey s.clock with
      | .error _ => some { s with attested := s.attested.eraseIdx i }
      | .ok c =>
        some { s with attested := s.attested.eraseIdx i, issued := s.issued ++ [⟨x, c⟩] }

/-- The nonce that an event draws, if any, has not been drawn before. -/
def freshNonce (s : Enrollment) : EnrollEvent → Bool
  | .drawNonce n => n ∉ s.draws
  | _ => true

/-- `enrollStep` as a relation. -/
inductive EnrollStep (S : SignatureScheme) (hmac : Bytes → Bytes → Bytes) (a : Authority)
    (s : Enrollment) : EnrollEvent → Enrollment → Prop where
  | advance (d : ℕ) : EnrollStep S hmac a s (.advance d) { s with clock := s.clock + d }
  | registerFailed (token : Bytes) (g : TokenGrant) :
      EnrollStep S hmac a s (.registerGrant token g) s
  | registerGrant {token : Bytes} {g : TokenGrant} {t : TokenAttestor}
      (h : s.attestor.registerGrant token g s.clock = .ok t) :
      EnrollStep S hmac a s (.registerGrant token g)
        { s with attestor := t, registrations := s.registrations ++ [⟨token, g, s.clock⟩] }
  | drawNonce (n : Bytes) :
      EnrollStep S hmac a s (.drawNonce n)
        { s with drawn := s.drawn ++ [(n, s.clock)], draws := n :: s.draws }
  | nonceFailed {i : ℕ} {n : Bytes} {now : ℤ} (hdrawn : s.drawn[i]? = some (n, now)) :
      EnrollStep S hmac a s (.nonce i)
        { s with nonces := sweep s.nonces now, drawn := s.drawn.eraseIdx i }
  | nonce {i : ℕ} {n : Bytes} {now : ℤ} (hdrawn : s.drawn[i]? = some (n, now)) :
      EnrollStep S hmac a s (.nonce i)
        { s with
          nonces := (sweep s.nonces now).insert n (now + a.nonceTTL)
          drawn := s.drawn.eraseIdx i
          handedOut := (n, s.clock) :: s.handedOut }
  | presentFailed (evidence nonce pubKey : Bytes) {nonces : Nonces} {e : EnrollError}
      (h : present s.nonces nonce pubKey s.clock = (.error e, nonces)) :
      EnrollStep S hmac a s (.present evidence nonce pubKey) { s with nonces := nonces }
  | present (evidence nonce pubKey : Bytes) {nonces : Nonces}
      (h : present s.nonces nonce pubKey s.clock = (.ok (), nonces)) :
      EnrollStep S hmac a s (.present evidence nonce pubKey)
        { s with
          nonces := nonces
          consumed := s.consumed ++ [⟨evidence, nonce, pubKey, s.clock⟩] }
  | attestFailed {i : ℕ} {x : Presented} (hx : s.consumed[i]? = some x) (order : List Bytes) :
      EnrollStep S hmac a s (.attest i order) { s with consumed := s.consumed.eraseIdx i }
  | attest {i : ℕ} {x : Presented} (hx : s.consumed[i]? = some x) {order : List Bytes}
      {token agentID : Bytes} {p : ℕ} {t : TokenAttestor}
      (h : s.attestor.attest hmac order x.evidence x.nonce x.pubKey s.clock =
        .ok ((token, p, agentID), t)) :
      EnrollStep S hmac a s (.attest i order)
        { s with
          attestor := t
          consumed := s.consumed.eraseIdx i
          attested := s.attested ++ [⟨x, token, p, agentID, s.clock⟩] }
  | signFailed {i : ℕ} {x : Attested} (hx : s.attested[i]? = some x) :
      EnrollStep S hmac a s (.sign i) { s with attested := s.attested.eraseIdx i }
  | sign {i : ℕ} {x : Attested} (hx : s.attested[i]? = some x) {c : Credential}
      (h : a.sign S x.agentID x.pubKey s.clock = .ok c) :
      EnrollStep S hmac a s (.sign i)
        { s with attested := s.attested.eraseIdx i, issued := s.issued ++ [⟨x, c⟩] }

theorem enrollStep_eq_some {S : SignatureScheme} {hmac : Bytes → Bytes → Bytes} {a : Authority}
    {s s' : Enrollment} {e : EnrollEvent} (h : enrollStep S hmac a s e = some s') :
    EnrollStep S hmac a s e s' := by
  cases e with
  | advance d =>
      cases h
      exact .advance d
  | registerGrant token g =>
      rw [enrollStep] at h
      split at h
      · cases h
        exact .registerFailed token g
      · cases h
        exact .registerGrant (by assumption)
  | drawNonce n =>
      rw [enrollStep] at h
      split at h
      · cases h
        exact .drawNonce n
      · cases h
  | nonce i =>
      rw [enrollStep] at h
      split at h
      · cases h
      · rename_i n now hdrawn
        rw [Authority.nonce] at h
        by_cases hfull : (sweep s.nonces now).entries.length ≥ maxOutstandingNonces
        · simp only [if_pos hfull, Option.some.injEq] at h
          subst h
          exact .nonceFailed hdrawn
        · simp only [if_neg hfull, Option.some.injEq] at h
          subst h
          exact .nonce hdrawn
  | present evidence nonce pubKey =>
      rw [enrollStep] at h
      split at h
      · cases h
        exact .presentFailed evidence nonce pubKey (by assumption)
      · cases h
        exact .present evidence nonce pubKey (by assumption)
  | attest i order =>
      rw [enrollStep] at h
      split at h
      · cases h
      · split at h
        · split at h
          · cases h
            exact .attestFailed (by assumption) order
          · cases h
            exact .attest (by assumption) (by assumption)
        · cases h
  | sign i =>
      rw [enrollStep] at h
      split at h
      · cases h
      · split at h
        · cases h
          exact .signFailed (by assumption)
        · cases h
          exact .sign (by assumption) (by assumption)

end Sanad.Workload
