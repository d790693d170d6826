import Mathlib.Data.Finset.SDiff
import Sanad.Common.Forest
import Sanad.Common.Transition
import Sanad.Delegation.Capability

/-! # Token exchange

`delegation/exchange.go`: the authority that issues delegation tokens and exchanges one for a
narrower one. All tokens are signed with one key; which token was exchanged from which is kept in a
map beside them, and a token is refused if it or a token before it has been revoked.

The calls of many clients interleave: `Exchange` checks the parent and issues later, in a step of its
own.
-/

namespace Sanad.Delegation

/-- `Token` -/
structure Token where
  id : Bytes
  parentID : Bytes
  principal : Bytes
  subject : Bytes
  grant : Grant
  issuedAt : ℤ
  notAfter : ℤ
  keyID : Bytes
  signature : Bytes
  deriving DecidableEq, Repr

/-- `tokenMsg`: the signing input for a token. -/
def tokenMsg (t : Token) : Bytes :=
  Json.render (.ofFields
    [("id", .ofString t.id), ("parent", .ofString t.parentID), ("principal", .ofString t.principal),
      ("subject", .ofString t.subject), ("kid", .ofString t.keyID), ("grant", grantJson t.grant),
      ("iat", .ofInt (Time.unix t.issuedAt)), ("exp", .ofInt (Time.unix t.notAfter))])

/-- The errors of `Verify`. -/
inductive TokenError where
  /-- `delegation: invalid token signature` -/
  | invalidSignature
  /-- `delegation: token expired` -/
  | expired
  /-- `delegation: token %q is revoked` -/
  | revoked (id : Bytes)
  deriving DecidableEq, Repr

/-- The errors of `NewExchange` and `Exchange`. -/
inductive ExchangeError where
  /-- `delegation: invalid exchange key` -/
  | invalidKey
  /-- `delegation: parent token invalid: %w` -/
  | parentInvalid (cause : TokenError)
  /-- `delegation: exchange widens scope: %w` -/
  | widensScope (cause : AttenuationError)
  deriving DecidableEq, Repr

/-! ## The authority -/

/-- `ExchangeAuthority` -/
structure ExchangeAuthority where
  priv : Bytes
  kid : Bytes
  ttl : ℤ
  parent : List (Bytes × Bytes)
  revoked : Finset Bytes
  deriving DecidableEq

/-- `NewExchange`: the TTL defaults to an hour. -/
def ExchangeAuthority.new (priv kid : Bytes) (ttl : ℤ) : Except ExchangeError ExchangeAuthority := do
  Except.require (priv.length = Sigctx.privateKeySize) .invalidKey
  .ok ⟨priv, kid, if ttl ≤ 0 then 3600 * Time.second else ttl, [], ∅⟩

/-- How the walk of `Verify` over the ancestry ends. -/
inductive Walk where
  | root
  | revoked (id : Bytes)
  | duplicate (id : Bytes)
  deriving DecidableEq, Repr

/-- The loop of `Verify`, at `id` after the ids that it has seen. -/
def ExchangeAuthority.walk (a : ExchangeAuthority) (seen : List Bytes) (id : Bytes) : Walk :=
  if id = [] then .root
  else if id ∈ seen then .duplicate id
  else if id ∈ a.revoked then .revoked id
  else a.walk (id :: seen) (Forest.parentOf [] a.parent id)
termination_by
  2 * ((a.parent.map Prod.fst).toFinset \ seen.toFinset).card + if id = [] then 0 else 1
decreasing_by
  next hne hseen _ =>
    rw [List.toFinset_cons, Finset.sdiff_insert, if_neg hne]
    by_cases hkey : id ∈ a.parent.map Prod.fst
    · -- one id fewer is left to see
      have hlt := Finset.card_erase_lt_of_mem (Finset.mem_sdiff.mpr
        ⟨List.mem_toFinset.mpr hkey, fun hmem => hseen (List.mem_toFinset.mp hmem)⟩)
      split <;> omega
    · -- the parent of an unknown id is empty, where the loop ends
      have hle := Finset.card_le_card (Finset.erase_subset id
        ((a.parent.map Prod.fst).toFinset \ seen.toFinset))
      rw [if_pos (Forest.parentOf_of_notMem hkey)]
      omega

section

variable (S : SignatureScheme)

/-- `Verify`: the signature, the validity window, and that neither the token nor a token before it
has been revoked. A walk that comes to an id for a second time ends without an error. -/
def ExchangeAuthority.verify (a : ExchangeAuthority) (t : Token) (now : ℤ) :
    Except TokenError Unit := do
  Except.require
    (Sigctx.verify S .exchangeToken (S.publicKey a.priv) (tokenMsg t) t.signature = true)
    .invalidSignature
  Except.require (t.notAfter = 0 ∨ now < t.notAfter) .expired
  match a.walk [] t.id with
  | .revoked id => .error (.revoked id)
  | _ => .ok ()

/-- The token that `issue` signs, with the id from `randID`. -/
def ExchangeAuthority.token (a : ExchangeAuthority) (parentID principal subject : Bytes) (g : Grant)
    (id : Bytes) (now : ℤ) : Token :=
  let t : Token :=
    { id, parentID, principal, subject, grant := g, issuedAt := now, notAfter := now + a.ttl
      keyID := a.kid, signature := [] }
  { t with signature := Sigctx.sign S .exchangeToken a.priv (tokenMsg t) }

/-- What `issue` writes to the map. -/
def ExchangeAuthority.record (a : ExchangeAuthority) (id parentID : Bytes) : ExchangeAuthority :=
  { a with parent := (id, parentID) :: a.parent.filter fun e => e.1 ≠ id }

/-- The checks of `Exchange`. -/
def ExchangeAuthority.checkExchange (a : ExchangeAuthority) (parent : Token) (narrower : Grant)
    (now : ℤ) : Except ExchangeError Unit := do
  (a.verify S parent now).mapError .parentInvalid
  (attenuates parent.grant narrower).mapError .widensScope

end

/-- `Revoke` -/
def ExchangeAuthority.revoke (a : ExchangeAuthority) (id : Bytes) : ExchangeAuthority :=
  { a with revoked := insert id a.revoked }

/-! ## Interleavings -/

/-- A call of `Exchange` whose checks have passed. -/
structure PendingExchange where
  parent : Token
  newSubject : Bytes
  narrower : Grant
  deriving DecidableEq

/-- The authority, the exchanges under way, and the tokens it has issued, each with the token it was
exchanged from. -/
structure ExchangeState where
  authority : ExchangeAuthority
  pending : List PendingExchange
  issued : List (Option Token × Token)

/-- One step of some client. A clock value is what the call reads, an id what `randID` returns. -/
inductive ExchangeEvent where
  | issueRoot (principal subject : Bytes) (g : Grant) (id : Bytes) (now : ℤ)
  /-- `Exchange` checks the parent and the grant; it returns if they are refused. -/
  | check (x : PendingExchange) (now : ℤ)
  /-- The exchange with this index issues, and returns. -/
  | issue (i : ℕ) (id : Bytes) (now : ℤ)
  /-- The exchange with this index gets no id from `randID`, and returns. -/
  | giveUp (i : ℕ)
  | revoke (id : Bytes)
  | verify (t : Token) (now : ℤ)
  deriving DecidableEq

/-- The authority has issued a token. -/
def ExchangeState.add (s : ExchangeState) (parent : Option Token) (t : Token) : ExchangeState :=
  { s with authority := s.authority.record t.id t.parentID, issued := (parent, t) :: s.issued }

/-- The effect of an event, none if there is no exchange with the index. -/
def exchangeStep (S : SignatureScheme) (s : ExchangeState) : ExchangeEvent → Option ExchangeState
  | .issueRoot principal subject g id now =>
    some (s.add none (s.authority.token S [] principal subject g id now))
  | .check x now =>
    match s.authority.checkExchange S x.parent x.narrower now with
    | .ok () => some { s with pending := s.pending ++ [x] }
    | .error _ => some s
  | .issue i id now =>
    match s.pending[i]? with
    | some x =>
      some ({ s with pending := s.pending.eraseIdx i }.add (some x.parent) (s.authority.token S
        x.parent.id x.parent.principal x.newSubject x.narrower id now))
    | none => none
  | .giveUp i =>
    match s.pending[i]? with
    | some _ => some { s with pending := s.pending.eraseIdx i }
    | none => none
  | .revoke id => some { s with authority := s.authority.revoke id }
  | .verify _ _ => some s

/-- A new authority. -/
def ExchangeState.new (a : ExchangeAuthority) : ExchangeState := ⟨a, [], []⟩

/-- The ids that have come up so far: of tokens issued, and of parents. -/
def ExchangeState.known (s : ExchangeState) : List Bytes :=
  s.authority.parent.map Prod.fst ++ s.authority.parent.map Prod.snd ++
    s.pending.map fun x => x.parent.id

/-- The id that an event draws, if any, is fresh. -/
def freshID (s : ExchangeState) : ExchangeEvent → Bool
  | .issueRoot _ _ _ id _ => id ≠ [] ∧ id ∉ s.known
  | .issue _ id _ => id ≠ [] ∧ id ∉ s.known
  | _ => true

/-- What an event does to the state. -/
inductive ExchangeStep (S : SignatureScheme) (s : ExchangeState) :
    ExchangeEvent → ExchangeState → Prop where
  | issueRoot (principal subject : Bytes) (g : Grant) (id : Bytes) (now : ℤ) :
      ExchangeStep S s (.issueRoot principal subject g id now)
        (s.add none (s.authority.token S [] principal subject g id now))
  | check {x : PendingExchange} {now : ℤ}
      (h : s.authority.checkExchange S x.parent x.narrower now = .ok ()) :
      ExchangeStep S s (.check x now) { s with pending := s.pending ++ [x] }
  | refused (x : PendingExchange) (now : ℤ) : ExchangeStep S s (.check x now) s
  | issue {i : ℕ} {x : PendingExchange} (h : s.pending[i]? = some x) (id : Bytes) (now : ℤ) :
      ExchangeStep S s (.issue i id now)
        ({ s with pending := s.pending.eraseIdx i }.add (some x.parent) (s.authority.token S
          x.parent.id x.parent.principal x.newSubject x.narrower id now))
  | giveUp (i : ℕ) : ExchangeStep S s (.giveUp i) { s with pending := s.pending.eraseIdx i }
  | revoke (id : Bytes) :
      ExchangeStep S s (.revoke id) { s with authority := s.authority.revoke id }
  | verify (t : Token) (now : ℤ) : ExchangeStep S s (.verify t now) s

theorem exchangeStep_eq_some {S : SignatureScheme} {s s' : ExchangeState} {e : ExchangeEvent}
    (h : exchangeStep S s e = some s') : ExchangeStep S s e s' := by
  cases e with
  | issueRoot principal subject g id now =>
      cases h
      exact .issueRoot principal subject g id now
  | check x now =>
      rw [exchangeStep] at h
      split at h
      · next hcheck =>
          cases h
          exact .check hcheck
      · cases h
        exact .refused x now
  | issue i id now =>
      rw [exchangeStep] at h
      split at h
      · next x hx =>
          cases h
          exact .issue hx id now
      · cases h
  | giveUp i =>
      rw [exchangeStep] at h
      split at h
      · cases h
        exact .giveUp i
      · cases h
  | revoke id =>
      cases h
      exact .revoke id
  | verify t now =>
      cases h
      exact .verify t now

end Sanad.Delegation
