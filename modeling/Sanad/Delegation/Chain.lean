import Mathlib.Data.List.Sort
import Sanad.Common.Json.Encode
import Sanad.Delegation.Grant
import Sanad.Sigctx

/-! # Delegation chains

`delegation/delegation.go`, `limits.go` and `verify.go`: the signed record principal, agent,
sub-agent, and its verification. `Verify` compares each hop with the one before only; `verify_sound`
derives what holds between any two hops.

The signature scheme is `crypto/ed25519`, a parameter. Nothing here depends on what it accepts.
-/

namespace Sanad.Delegation

/-- `Hop`: the delegator grants the delegate the given authority. -/
structure Hop where
  delegator : Bytes
  delegate : Bytes
  grant : Grant
  signature : Bytes
  deriving DecidableEq, Repr

/-- `Chain` -/
structure Chain where
  hops : List Hop
  deriving DecidableEq, Repr

/-- `KeyRegistry`: principals and agents are separate namespaces. -/
structure KeyRegistry where
  principalKey : Bytes → Option Bytes
  agentKey : Bytes → Option Bytes

/-- The errors of the delegation package that verification can return. -/
inductive DelegationError where
  /-- `delegation: empty chain` -/
  | emptyChain
  /-- `delegation: too deep: chain has %d hops, the maximum is %d` -/
  | tooDeep (hops maximum : ℕ)
  /-- `delegation: cyclic chain: hop %d delegates %q to itself` -/
  | selfDelegation (hop : ℕ) (party : Bytes)
  /-- `delegation: cyclic chain: hop %d delegates back to %q, which already appears in the chain` -/
  | cycle (hop : ℕ) (party : Bytes)
  /-- `delegation: chain root %q is not the principal %q` -/
  | rootNotPrincipal (root principal : Bytes)
  /-- `delegation: broken chain at hop %d: %q does not hold the delegation from %q` -/
  | brokenChain (hop : ℕ) (delegator previous : Bytes)
  /-- `delegation: no registered principal key for delegator %q` -/
  | noPrincipalKey (delegator : Bytes)
  /-- `delegation: no registered agent key for delegator %q` -/
  | noAgentKey (delegator : Bytes)
  /-- `delegation: invalid signature at hop %d` -/
  | invalidSignature (hop : ℕ)
  /-- `delegation: hop %d widens scope: %w` -/
  | widensScope (hop : ℕ) (cause : AttenuationError)
  /-- `delegation: hop %d has expired` -/
  | expired (hop : ℕ)
  deriving DecidableEq, Repr

/-! ## The signing input -/

/-- `sort.Strings` on a copy. -/
def sortedCopy (s : List Bytes) : List Bytes := s.insertionSort fun a b => a ≤ b

/-- A sorted copy as JSON. The copy of an empty slice is nil, which is written as `null`. -/
def stringsJson (s : List Bytes) : Json :=
  if s.length = 0 then .null else .array ((sortedCopy s).map .ofString)

/-- A `*types.Budget` field with `omitempty`. -/
def budgetFields : Option Budget → List (String × Json)
  | none => []
  | some b => [("budget", .ofFields [("Limit", .ofInt b.limit), ("Unit", .ofString b.unit)])]

/-- A `[]byte` field with `omitempty`. -/
def bytesFields (name : String) (b : Bytes) : List (String × Json) :=
  if b.length = 0 then [] else [(name, .ofBytes b)]

/-- The expiry in the signing input: whole seconds, and zero for no bound. -/
def unixOrZero (t : ℤ) : ℤ := if t = 0 then 0 else Time.unix t

/-- `canonical`: the deterministic signing input for a hop. -/
def canonical (delegator delegate : Bytes) (g : Grant) (prevSig : Bytes) : Bytes :=
  Json.render (.ofFields (
    [("delegator", .ofString delegator), ("delegate", .ofString delegate),
      ("tools", stringsJson g.tools), ("servers", stringsJson g.servers),
      ("not_after", .ofInt (unixOrZero g.notAfter))] ++
    budgetFields g.budget ++ bytesFields "prev" prevSig))

/-! ## The shape of a chain -/

/-- `MaxDepth` -/
def maxDepth : ℕ := 16

/-- `VerifyOption`: `WithMaxDepth n` is the only one. -/
inductive VerifyOption where
  | withMaxDepth (n : ℤ)

/-- What an option does to the depth ceiling: it can only tighten it. -/
def VerifyOption.apply (limit : ℤ) : VerifyOption → ℤ
  | .withMaxDepth n => if n > 0 ∧ n < limit then n else limit

/-- `newVerifyOptions`: the depth ceiling after all options. -/
def newVerifyOptions (opts : List VerifyOption) : ℤ := opts.foldl VerifyOption.apply maxDepth

/-- The loop of `checkShape`: no party delegates to itself or to one seen before. -/
def checkParties : ℕ → List Bytes → List Hop → Except DelegationError Unit
  | _, _, [] => .ok ()
  | i, seen, hop :: hops => do
    Except.require (hop.delegator ≠ hop.delegate) (.selfDelegation i hop.delegate)
    Except.require (hop.delegate ∉ seen) (.cycle i hop.delegate)
    checkParties (i + 1) (hop.delegate :: seen) hops

/-- `Chain.checkShape`: every check that needs no cryptography. -/
def Chain.checkShape (c : Chain) (limit : ℤ) : Except DelegationError Unit :=
  match c.hops with
  | [] => .error .emptyChain
  | root :: _ => do
    Except.require (c.hops.length ≤ limit) (.tooDeep c.hops.length limit.toNat)
    checkParties 0 [root.delegator] c.hops

/-! ## Verification -/

section

variable (S : SignatureScheme) (keys : KeyRegistry) (rootPrincipalID : Bytes) (now : ℤ)

/-- The key of a hop's delegator, after the continuity check. Which namespace it is looked up in is
fixed by the hop's position: `prev` is absent for the root hop. -/
def delegatorKey (i : ℕ) (prev : Option Hop) (hop : Hop) : Except DelegationError Bytes :=
  match prev with
  | none => do
    Except.require (hop.delegator = rootPrincipalID) (.rootNotPrincipal hop.delegator rootPrincipalID)
    Except.ofOption (keys.principalKey hop.delegator) (.noPrincipalKey hop.delegator)
  | some p => do
    Except.require (hop.delegator = p.delegate) (.brokenChain i hop.delegator p.delegate)
    Except.ofOption (keys.agentKey hop.delegator) (.noAgentKey hop.delegator)

/-- The body of the loop of `Verify`. -/
def checkHop (i : ℕ) (prev : Option Hop) (hop : Hop) : Except DelegationError Unit := do
  let pub ← delegatorKey keys rootPrincipalID i prev hop
  let prevSig := (prev.map Hop.signature).getD []
  Except.require
    (Sigctx.verify S .delegationHop pub (canonical hop.delegator hop.delegate hop.grant prevSig)
      hop.signature = true)
    (.invalidSignature i)
  match prev with
  | none => .ok ()
  | some p => (attenuates p.grant hop.grant).mapError (.widensScope i)
  Except.require (hop.grant.notAfter = 0 ∨ now < hop.grant.notAfter) (.expired i)

/-- The loop of `Verify`. -/
def checkHops : ℕ → Option Hop → List Hop → Except DelegationError Unit
  | _, _, [] => .ok ()
  | i, prev, hop :: hops => do
    checkHop S keys rootPrincipalID now i prev hop
    checkHops (i + 1) (some hop) hops

/-- `Verify`: the effective grant and the acting agent, which is the last delegate. -/
def verify (c : Chain) (opts : List VerifyOption) : Except DelegationError (Grant × Bytes) := do
  c.checkShape (newVerifyOptions opts)
  checkHops S keys rootPrincipalID now 0 none c.hops
  match c.hops.getLast? with
  | some last => .ok (last.grant, last.delegate)
  | none => .error .emptyChain

end

/-! ## Making a chain -/

/-- The errors of `NewRoot` and `Extend`. -/
inductive ExtendError where
  /-- `delegation: invalid principal key` -/
  | invalidPrincipalKey
  /-- `delegation: cyclic chain: %q cannot delegate to itself` -/
  | selfDelegation (party : Bytes)
  /-- `delegation: cannot extend an empty chain` -/
  | emptyChain
  /-- `delegation: invalid holder key` -/
  | invalidHolderKey
  /-- `delegation: too deep: extending would make %d hops, the maximum is %d` -/
  | tooDeep (hops maximum : ℕ)
  /-- `delegation: cyclic chain: %q is the chain's root delegator` -/
  | rootDelegator (party : Bytes)
  /-- `delegation: cyclic chain: %q already holds this delegation from hop %d` -/
  | alreadyHolds (party : Bytes) (hop : ℕ)
  deriving DecidableEq, Repr

section

variable (S : SignatureScheme)

/-- `NewRoot`: the principal delegates to the delegate under the grant. -/
def newRoot (principalKey principalID delegateID : Bytes) (g : Grant) : Except ExtendError Chain := do
  Except.require (principalKey.length = Sigctx.privateKeySize) .invalidPrincipalKey
  Except.require (principalID ≠ delegateID) (.selfDelegation principalID)
  let sig := Sigctx.sign S .delegationHop principalKey (canonical principalID delegateID g [])
  .ok ⟨[⟨principalID, delegateID, g, sig⟩]⟩

/-- The loop of `Extend`: the delegate does not hold the delegation yet. -/
def checkHolders (delegateID : Bytes) : ℕ → List Hop → Except ExtendError Unit
  | _, [] => .ok ()
  | i, hop :: hops => do
    Except.require (hop.delegate ≠ delegateID) (.alreadyHolds delegateID i)
    checkHolders delegateID (i + 1) hops

/-- `Chain.Extend`: the holder, which is the last delegate, delegates onward. -/
def Chain.extend (c : Chain) (holderKey delegateID : Bytes) (g : Grant) :
    Except ExtendError Chain := do
  let root ← Except.ofOption c.hops.head? .emptyChain
  let last ← Except.ofOption c.hops.getLast? .emptyChain
  Except.require (holderKey.length = Sigctx.privateKeySize) .invalidHolderKey
  Except.require (c.hops.length + 1 ≤ maxDepth) (.tooDeep (c.hops.length + 1) maxDepth)
  Except.require (delegateID ≠ root.delegator) (.rootDelegator delegateID)
  checkHolders delegateID 0 c.hops
  let sig := Sigctx.sign S .delegationHop holderKey
    (canonical last.delegate delegateID g last.signature)
  .ok ⟨c.hops ++ [⟨last.delegate, delegateID, g, sig⟩]⟩

end

/-! ## What verification establishes -/

theorem newVerifyOptions_le (opts : List VerifyOption) : newVerifyOptions opts ≤ maxDepth := by
  have hfold : ∀ (opts : List VerifyOption) (limit : ℤ),
      opts.foldl VerifyOption.apply limit ≤ limit := by
    intro opts
    induction opts with
    | nil =>
        intro limit
        exact le_rfl
    | cons opt opts ih =>
        intro limit
        obtain ⟨n⟩ := opt
        refine (ih _).trans ?_
        rw [VerifyOption.apply]
        split <;> omega
  exact hfold opts maxDepth

/-- The parties of a chain: the root delegator, then each delegate. -/
def Chain.parties (c : Chain) : List Bytes :=
  match c.hops with
  | [] => []
  | root :: _ => root.delegator :: c.hops.map Hop.delegate

theorem nodup_of_checkParties {i : ℕ} {seen : List Bytes} {hops : List Hop}
    (h : checkParties i seen hops = .ok ()) :
    (hops.map Hop.delegate).Nodup ∧ ∀ p ∈ seen, p ∉ hops.map Hop.delegate := by
  induction hops generalizing i seen with
  | nil => simp
  | cons hop hops ih =>
      rw [checkParties, Except.check_bind_eq_ok_iff, Except.check_bind_eq_ok_iff,
        Except.require_eq_ok_iff, Except.require_eq_ok_iff] at h
      obtain ⟨-, hnew, hrest⟩ := h
      obtain ⟨hnodup, hseen⟩ := ih hrest
      rw [List.map_cons]
      refine ⟨List.nodup_cons.mpr ⟨hseen _ List.mem_cons_self, hnodup⟩, ?_⟩
      intro p hp hmem
      rcases List.mem_cons.mp hmem with rfl | hmem
      · exact hnew hp
      · exact hseen p (List.mem_cons_of_mem _ hp) hmem

/-- A chain of acceptable shape is not empty, not too deep, and names no party twice. -/
theorem Chain.of_checkShape {c : Chain} {limit : ℤ} (h : c.checkShape limit = .ok ()) :
    1 ≤ c.hops.length ∧ (c.hops.length : ℤ) ≤ limit ∧ c.parties.Nodup := by
  rw [Chain.checkShape] at h
  rw [Chain.parties]
  split at h
  · cases h
  · next root rest hhops =>
      rw [Except.check_bind_eq_ok_iff, Except.require_eq_ok_iff] at h
      obtain ⟨hdepth, hparties⟩ := h
      obtain ⟨hnodup, hroot⟩ := nodup_of_checkParties hparties
      refine ⟨by rw [hhops]; simp, hdepth, ?_⟩
      rw [hhops] at hnodup hroot ⊢
      exact List.nodup_cons.mpr ⟨hroot _ List.mem_cons_self, hnodup⟩

/-- The hop `b` takes up the delegation that `a` made, and confers no more. -/
structure Continues (a b : Hop) : Prop where
  continuity : b.delegator = a.delegate
  attenuation : b.grant ≤ a.grant

section

variable {S : SignatureScheme} {keys : KeyRegistry} {rootPrincipalID : Bytes} {now : ℤ}

theorem checkHop_root {i : ℕ} {hop : Hop} :
    checkHop S keys rootPrincipalID now i none hop = .ok () ↔
      hop.delegator = rootPrincipalID ∧
      (∃ pub, keys.principalKey hop.delegator = some pub ∧ Sigctx.verify S .delegationHop pub
        (canonical hop.delegator hop.delegate hop.grant []) hop.signature = true) ∧
      (hop.grant.notAfter = 0 ∨ now < hop.grant.notAfter) := by
  rw [checkHop, delegatorKey, Except.bind_eq_ok_iff]
  constructor
  · rintro ⟨pub, hkey, h⟩
    rw [Except.check_bind_eq_ok_iff, Except.require_eq_ok_iff, Except.ofOption_eq_ok_iff] at hkey
    rw [Except.check_bind_eq_ok_iff, Except.require_eq_ok_iff] at h
    exact ⟨hkey.1, ⟨pub, hkey.2, h.1⟩, Except.require_eq_ok_iff.mp h.2⟩
  · rintro ⟨hroot, ⟨pub, hkey, hsig⟩, hexp⟩
    refine ⟨pub, ?_, ?_⟩
    · rw [Except.check_bind_eq_ok_iff, Except.require_eq_ok_iff, Except.ofOption_eq_ok_iff]
      exact ⟨hroot, hkey⟩
    · rw [Except.check_bind_eq_ok_iff, Except.require_eq_ok_iff]
      exact ⟨hsig, Except.require_eq_ok_iff.mpr hexp⟩

theorem checkHop_later {i : ℕ} {p hop : Hop} :
    checkHop S keys rootPrincipalID now i (some p) hop = .ok () ↔
      Continues p hop ∧
      (∃ pub, keys.agentKey hop.delegator = some pub ∧ Sigctx.verify S .delegationHop pub
        (canonical hop.delegator hop.delegate hop.grant p.signature) hop.signature = true) ∧
      (hop.grant.notAfter = 0 ∨ now < hop.grant.notAfter) := by
  rw [checkHop, delegatorKey, Except.bind_eq_ok_iff]
  constructor
  · rintro ⟨pub, hkey, h⟩
    rw [Except.check_bind_eq_ok_iff, Except.require_eq_ok_iff, Except.ofOption_eq_ok_iff] at hkey
    rw [Except.check_bind_eq_ok_iff, Except.require_eq_ok_iff, Except.check_bind_eq_ok_iff,
      Except.mapError_eq_ok_iff, attenuates_eq_ok_iff, Except.require_eq_ok_iff] at h
    exact ⟨⟨hkey.1, h.2.1⟩, ⟨pub, hkey.2, h.1⟩, h.2.2⟩
  · rintro ⟨⟨hcont, hatt⟩, ⟨pub, hkey, hsig⟩, hexp⟩
    refine ⟨pub, ?_, ?_⟩
    · rw [Except.check_bind_eq_ok_iff, Except.require_eq_ok_iff, Except.ofOption_eq_ok_iff]
      exact ⟨hcont, hkey⟩
    · rw [Except.check_bind_eq_ok_iff, Except.require_eq_ok_iff, Except.check_bind_eq_ok_iff,
        Except.mapError_eq_ok_iff, attenuates_eq_ok_iff, Except.require_eq_ok_iff]
      exact ⟨hsig, hatt, hexp⟩

/-- The loop of `Verify` after a hop `p`: each hop continues the one before, and none has expired.
-/
theorem isChain_of_checkHops {i : ℕ} {p : Hop} {hops : List Hop}
    (h : checkHops S keys rootPrincipalID now i (some p) hops = .ok ()) :
    (p :: hops).IsChain Continues ∧
      ∀ hop ∈ hops, hop.grant.notAfter = 0 ∨ now < hop.grant.notAfter := by
  induction hops generalizing i p with
  | nil => exact ⟨List.isChain_singleton p, by simp⟩
  | cons hop hops ih =>
      rw [checkHops, Except.check_bind_eq_ok_iff, checkHop_later] at h
      obtain ⟨⟨hcont, -, hexp⟩, hrest⟩ := h
      obtain ⟨hchain, hall⟩ := ih hrest
      refine ⟨List.isChain_cons_cons.mpr ⟨hcont, hchain⟩, ?_⟩
      intro a ha
      rcases List.mem_cons.mp ha with rfl | ha
      · exact hexp
      · exact hall a ha

/-- A verified chain. -/
structure Verified (rootPrincipalID : Bytes) (now : ℤ) (c : Chain) (g : Grant) (agent : Bytes) :
    Prop where
  nonempty : 1 ≤ c.hops.length
  depth : c.hops.length ≤ maxDepth
  parties : c.parties.Nodup
  root : ∀ hop ∈ c.hops.head?, hop.delegator = rootPrincipalID
  continues : c.hops.IsChain Continues
  last : ∃ hop ∈ c.hops.getLast?, hop.grant = g ∧ hop.delegate = agent
  unexpired : ∀ hop ∈ c.hops, hop.grant.notAfter = 0 ∨ now < hop.grant.notAfter

/-- What `Verify` returns is a verified chain. -/
theorem verified_of_verify {c : Chain} {opts : List VerifyOption} {g : Grant} {agent : Bytes}
    (h : verify S keys rootPrincipalID now c opts = .ok (g, agent)) :
    Verified rootPrincipalID now c g agent := by
  rw [verify, Except.check_bind_eq_ok_iff, Except.check_bind_eq_ok_iff] at h
  obtain ⟨hshape, hhops, hlast⟩ := h
  obtain ⟨hne, hdepth, hparties⟩ := Chain.of_checkShape hshape
  have hlimit := newVerifyOptions_le opts
  obtain ⟨hops⟩ := c
  cases hops with
  | nil => simp at hne
  | cons hop hops =>
      rw [checkHops, Except.check_bind_eq_ok_iff, checkHop_root] at hhops
      obtain ⟨⟨hroot, -, hexp⟩, hrest⟩ := hhops
      obtain ⟨hchain, hall⟩ := isChain_of_checkHops hrest
      refine ⟨hne, by omega, hparties, ?_, hchain, ?_, ?_⟩
      · rintro a ⟨⟩
        exact hroot
      · split at hlast
        · next last hl =>
            obtain ⟨rfl, rfl⟩ := Prod.mk.inj (Except.ok.inj hlast)
            exact ⟨last, hl, rfl, rfl⟩
        · cases hlast
      · intro a ha
        rcases List.mem_cons.mp ha with rfl | ha
        · exact hexp
        · exact hall a ha

/-- Along a verified chain, no later hop confers more than an earlier one. -/
theorem Verified.pairwise_le {c : Chain} {g : Grant} {agent : Bytes}
    (h : Verified rootPrincipalID now c g agent) :
    c.hops.Pairwise fun a b => b.grant ≤ a.grant := by
  have hchain : c.hops.IsChain fun a b => b.grant ≤ a.grant :=
    h.continues.imp fun a b hab => hab.attenuation
  exact List.isChain_iff_pairwise.mp hchain

/-- The effective grant confers no more than any hop. -/
theorem Verified.grant_le {c : Chain} {g : Grant} {agent : Bytes}
    (h : Verified rootPrincipalID now c g agent) : ∀ hop ∈ c.hops, g ≤ hop.grant := by
  obtain ⟨last, hlast, rfl, -⟩ := h.last
  exact last_le_of_isChain (h.continues.imp fun a b hab => hab.attenuation) hlast

end

/-! ## What is made verifies -/

theorem checkHolders_eq_ok_iff {delegateID : Bytes} {i : ℕ} {hops : List Hop} :
    checkHolders delegateID i hops = .ok () ↔ ∀ hop ∈ hops, hop.delegate ≠ delegateID := by
  induction hops generalizing i with
  | nil => simp [checkHolders]
  | cons hop hops ih =>
      rw [checkHolders, Except.check_bind_eq_ok_iff, Except.require_eq_ok_iff, ih,
        List.forall_mem_cons]

/-- One more hop is of acceptable shape if its delegate is a new party. -/
theorem checkParties_concat {i : ℕ} {seen : List Bytes} {hops : List Hop} {hop : Hop}
    (h : checkParties i seen hops = .ok ()) (hself : hop.delegator ≠ hop.delegate)
    (hseen : hop.delegate ∉ seen) (hnew : ∀ a ∈ hops, a.delegate ≠ hop.delegate) :
    checkParties i seen (hops ++ [hop]) = .ok () := by
  induction hops generalizing i seen with
  | nil =>
      rw [List.nil_append, checkParties, Except.check_bind_eq_ok_iff, Except.check_bind_eq_ok_iff,
        Except.require_eq_ok_iff, Except.require_eq_ok_iff]
      exact ⟨hself, hseen, rfl⟩
  | cons a hops ih =>
      rw [checkParties, Except.check_bind_eq_ok_iff, Except.check_bind_eq_ok_iff] at h
      obtain ⟨hfirst, hsecond, hrest⟩ := h
      obtain ⟨ha, hothers⟩ := List.forall_mem_cons.mp hnew
      rw [List.cons_append, checkParties, Except.check_bind_eq_ok_iff, Except.check_bind_eq_ok_iff]
      refine ⟨hfirst, hsecond, ih hrest ?_ hothers⟩
      rw [List.mem_cons, not_or]
      exact ⟨fun heq => ha heq.symm, hseen⟩

section

variable {S : SignatureScheme} {keys : KeyRegistry} {rootPrincipalID : Bytes} {now : ℤ}

theorem checkHops_concat {i : ℕ} {prev : Option Hop} {hops : List Hop} {hop last : Hop}
    (h : checkHops S keys rootPrincipalID now i prev hops = .ok ())
    (hlast : hops.getLast? = some last)
    (hhop : ∀ j, checkHop S keys rootPrincipalID now j (some last) hop = .ok ()) :
    checkHops S keys rootPrincipalID now i prev (hops ++ [hop]) = .ok () := by
  induction hops generalizing i prev with
  | nil => cases hlast
  | cons a hops ih =>
      rw [checkHops, Except.check_bind_eq_ok_iff] at h
      rw [List.cons_append, checkHops, Except.check_bind_eq_ok_iff]
      refine ⟨h.1, ?_⟩
      cases hops with
      | nil =>
          cases hlast
          rw [List.nil_append, checkHops, Except.check_bind_eq_ok_iff]
          exact ⟨hhop (i + 1), rfl⟩
      | cons b hops => exact ih h.2 (by rwa [List.getLast?_cons_cons] at hlast)

/-- What `NewRoot` makes with the registered key of the principal is accepted. -/
theorem verify_newRoot {principalKey delegateID : Bytes} {g : Grant} {c : Chain}
    {opts : List VerifyOption} (h : newRoot S principalKey rootPrincipalID delegateID g = .ok c)
    (hdepth : 1 ≤ newVerifyOptions opts)
    (hkey : keys.principalKey rootPrincipalID = some (S.publicKey principalKey))
    (hsize : (S.publicKey principalKey).length = Sigctx.publicKeySize)
    (hsign : ∀ msg, S.verify (S.publicKey principalKey) msg (S.sign principalKey msg) = true)
    (hexp : g.notAfter = 0 ∨ now < g.notAfter) :
    verify S keys rootPrincipalID now c opts = .ok (g, delegateID) := by
  rw [newRoot, Except.check_bind_eq_ok_iff, Except.check_bind_eq_ok_iff, Except.require_eq_ok_iff,
    Except.require_eq_ok_iff] at h
  obtain ⟨-, hself, h⟩ := h
  cases h
  rw [verify, Except.check_bind_eq_ok_iff, Except.check_bind_eq_ok_iff]
  refine ⟨?_, ?_, rfl⟩
  · rw [Chain.checkShape, Except.check_bind_eq_ok_iff, Except.require_eq_ok_iff]
    refine ⟨hdepth, ?_⟩
    rw [checkParties, Except.check_bind_eq_ok_iff, Except.check_bind_eq_ok_iff,
      Except.require_eq_ok_iff, Except.require_eq_ok_iff]
    exact ⟨hself, by simpa using hself.symm, rfl⟩
  · rw [checkHops, Except.check_bind_eq_ok_iff, checkHop_root]
    exact ⟨⟨rfl, ⟨_, hkey, Sigctx.verify_sign hsize hsign _ _⟩, hexp⟩, rfl⟩

/-- What `Extend` makes of an accepted chain is accepted, if the holder signs with its registered key
and passes on no more than it has. -/
theorem verify_extend {c c' : Chain} {opts : List VerifyOption} {g g' : Grant}
    {agent holderKey delegateID : Bytes}
    (h : verify S keys rootPrincipalID now c opts = .ok (g, agent))
    (hextend : c.extend S holderKey delegateID g' = .ok c')
    (hdepth : c.hops.length + 1 ≤ newVerifyOptions opts)
    (hkey : keys.agentKey agent = some (S.publicKey holderKey))
    (hsize : (S.publicKey holderKey).length = Sigctx.publicKeySize)
    (hsign : ∀ msg, S.verify (S.publicKey holderKey) msg (S.sign holderKey msg) = true)
    (hle : g' ≤ g) (hexp : g'.notAfter = 0 ∨ now < g'.notAfter) :
    verify S keys rootPrincipalID now c' opts = .ok (g', delegateID) := by
  simp only [Chain.extend, Except.bind_eq_ok_iff, Except.ofOption_eq_ok_iff,
    Except.require_eq_ok_iff] at hextend
  obtain ⟨root, hroot, last, hlast, -, -, -, -, -, hnotRoot, ⟨⟩, hholders, hc'⟩ := hextend
  cases hc'
  rw [checkHolders_eq_ok_iff] at hholders
  rw [verify, Except.check_bind_eq_ok_iff, Except.check_bind_eq_ok_iff, hlast] at h
  obtain ⟨hshape, hhops, heff⟩ := h
  obtain ⟨rfl, rfl⟩ := Prod.mk.inj (Except.ok.inj heff)
  obtain ⟨hops⟩ := c
  cases hops with
  | nil => cases hroot
  | cons first hops =>
      cases hroot
      rw [Chain.checkShape, Except.check_bind_eq_ok_iff] at hshape
      rw [verify, Except.check_bind_eq_ok_iff, Except.check_bind_eq_ok_iff, List.getLast?_concat]
      refine ⟨?_, checkHops_concat hhops hlast fun j => ?_, rfl⟩
      · rw [List.cons_append, Chain.checkShape, Except.check_bind_eq_ok_iff,
          Except.require_eq_ok_iff]
        refine ⟨by simpa using hdepth, ?_⟩
        rw [← List.cons_append]
        exact checkParties_concat hshape.2 (hholders last (List.mem_of_getLast? hlast))
          (by simpa using hnotRoot) hholders
      · exact checkHop_later.mpr ⟨⟨rfl, hle⟩, ⟨_, hkey, Sigctx.verify_sign hsize hsign _ _⟩, hexp⟩

end

/-- Soundness of `Verify`: an accepted chain has between 1 and 16 hops and pairwise distinct
parties, it starts at the principal and is continuous, no hop has expired, and whatever a later
grant permits every earlier grant permits. The effective grant is the last one. This rests on
`attenuates` being a preorder that implies containment. -/
theorem verify_sound (S : SignatureScheme) (keys : KeyRegistry) (rootPrincipalID : Bytes) (now : ℤ)
    (c : Chain) (opts : List VerifyOption) (g : Grant) (agent : Bytes)
    (h : verify S keys rootPrincipalID now c opts = .ok (g, agent)) :
    (1 ≤ c.hops.length ∧ c.hops.length ≤ 16) ∧ c.parties.Nodup ∧
    (∀ hop ∈ c.hops.head?, hop.delegator = rootPrincipalID) ∧
    (∀ i, (hi : i + 1 < c.hops.length) → c.hops[i + 1].delegator = c.hops[i].delegate) ∧
    (∀ i j, (hij : i ≤ j) → (hj : j < c.hops.length) →
      ∀ u : Use, c.hops[j].grant.Permits u → c.hops[i].grant.Permits u) ∧
    (∃ hop ∈ c.hops.getLast?, hop.grant = g ∧ hop.delegate = agent) ∧
    (∀ hop ∈ c.hops, hop.grant.notAfter ≠ 0 → now < hop.grant.notAfter) ∧
    (∀ a, attenuates a a = .ok ()) ∧
    (∀ a b d, attenuates a b = .ok () → attenuates b d = .ok () → attenuates a d = .ok ()) ∧
    (∀ parent child, attenuates parent child = .ok () →
      ∀ u : Use, child.Permits u → parent.Permits u) := by
  have hv := verified_of_verify h
  refine ⟨⟨hv.nonempty, hv.depth⟩, hv.parties, hv.root, ?_, ?_, hv.last, ?_, ?_, ?_, ?_⟩
  · intro i hi
    exact (List.isChain_iff_getElem.mp hv.continues i hi).continuity
  · intro i j hij hj u hu
    rcases hij.eq_or_lt with rfl | hlt
    · exact hu
    · exact permits_of_le (List.pairwise_iff_getElem.mp hv.pairwise_le i j (by omega) hj hlt) hu
  · intro hop hhop hne
    exact (hv.unexpired hop hhop).resolve_left hne
  · intro a
    exact attenuates_eq_ok_iff.mpr le_rfl
  · intro a b d hab hbd
    rw [attenuates_eq_ok_iff] at *
    exact hbd.trans hab
  · intro parent child hle u hu
    exact permits_of_le (attenuates_eq_ok_iff.mp hle) hu

/-- A principal delegates to an agent, which delegates a narrower grant to a second one. -/
theorem verify_sound_two_hops :
    let key := fun (n : UInt8) => List.replicate 64 n
    let keys : KeyRegistry :=
      { principalKey := fun id => if id = Bytes.ascii "p" then some ((key 1).drop 32) else none
        agentKey := fun id => if id = Bytes.ascii "a" then some ((key 2).drop 32) else none }
    let wide : Grant := { tools := [], servers := [], notAfter := 0, budget := none }
    let narrow : Grant :=
      { tools := [Bytes.ascii "read"], servers := [], notAfter := 9,
        budget := some ⟨5, Bytes.ascii "usd"⟩ }
    let sig₀ := Sigctx.sign .free .delegationHop (key 1)
      (canonical (Bytes.ascii "p") (Bytes.ascii "a") wide [])
    let sig₁ := Sigctx.sign .free .delegationHop (key 2)
      (canonical (Bytes.ascii "a") (Bytes.ascii "b") narrow sig₀)
    let c : Chain := ⟨[⟨Bytes.ascii "p", Bytes.ascii "a", wide, sig₀⟩,
      ⟨Bytes.ascii "a", Bytes.ascii "b", narrow, sig₁⟩]⟩
    verify .free keys (Bytes.ascii "p") 8 c [.withMaxDepth 4] = .ok (narrow, Bytes.ascii "b") ∧
      c.parties.Nodup := by
  intro key keys wide narrow sig₀ sig₁ c
  have h : verify .free keys (Bytes.ascii "p") 8 c [.withMaxDepth 4]
      = .ok (narrow, Bytes.ascii "b") := by decide +kernel
  exact ⟨h, (verify_sound .free keys (Bytes.ascii "p") 8 c _ _ _ h).2.1⟩

end Sanad.Delegation
