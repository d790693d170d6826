import Sanad.Delegation.History

/-! # Presentations of a delegation chain

`delegation/delegation.go` and `verify.go`: a hop's signature covers the lists in sorted order and
the expiry in whole seconds, while `Verify` and `attenuates` decide on the grants as presented. So
one set of signatures has several presentations. What `Verify` decides about a chain splits into
what the signatures fix (`Authentic`) and what it reads off the grants: that they narrow, and when
the last one expires (`accepts_iff`).
-/

namespace Sanad.Delegation

/-! ## What the signatures fix -/

section

variable (S : SignatureScheme) (keys : KeyRegistry) (rootPrincipalID : Bytes)

/-- The checks of the loop of `Verify` that are not about the grants: the delegator may delegate, its
key is registered, and the signature verifies. -/
def AuthenticHops : ℕ → Option Hop → List Hop → Prop
  | _, _, [] => True
  | i, prev, hop :: hops =>
    (∃ pub, delegatorKey keys rootPrincipalID i prev hop = .ok pub ∧
      Sigctx.verify S .delegationHop pub (canonical hop.delegator hop.delegate hop.grant
        ((prev.map Hop.signature).getD [])) hop.signature = true) ∧
    AuthenticHops (i + 1) (some hop) hops

/-- The chain passes every check that is not about the grants. -/
def Chain.Authentic (c : Chain) (opts : List VerifyOption) : Prop :=
  c.checkShape (newVerifyOptions opts) = .ok () ∧ AuthenticHops S keys rootPrincipalID 0 none c.hops

/-- `Verify` accepts the chain. -/
def Chain.Accepted (c : Chain) (now : ℤ) (opts : List VerifyOption) : Prop :=
  ∃ res, verify S keys rootPrincipalID now c opts = .ok res

end

/-- No hop confers more than the one before it. -/
def Chain.Narrowing (c : Chain) : Prop :=
  c.hops.IsChain fun a b => attenuates a.grant b.grant = .ok ()

/-- The expiry of the last hop. -/
def Chain.lastNotAfter (c : Chain) : Option ℤ := c.hops.getLast?.map fun hop => hop.grant.notAfter

section

variable {S : SignatureScheme} {keys : KeyRegistry} {rootPrincipalID : Bytes} {now : ℤ}

theorem checkHop_eq_ok_iff {i : ℕ} {prev : Option Hop} {hop : Hop} :
    checkHop S keys rootPrincipalID now i prev hop = .ok () ↔
      (∃ pub, delegatorKey keys rootPrincipalID i prev hop = .ok pub ∧
        Sigctx.verify S .delegationHop pub (canonical hop.delegator hop.delegate hop.grant
          ((prev.map Hop.signature).getD [])) hop.signature = true) ∧
      (∀ p ∈ prev, attenuates p.grant hop.grant = .ok ()) ∧
      (hop.grant.notAfter = 0 ∨ now < hop.grant.notAfter) := by
  rw [checkHop, Except.bind_eq_ok_iff]
  cases prev with
  | none =>
      simp only [Except.check_bind_eq_ok_iff, Except.require_eq_ok_iff]
      constructor
      · rintro ⟨pub, hkey, hsig, -, hexp⟩
        exact ⟨⟨pub, hkey, hsig⟩, by simp, hexp⟩
      · rintro ⟨⟨pub, hkey, hsig⟩, -, hexp⟩
        exact ⟨pub, hkey, hsig, trivial, hexp⟩
  | some p =>
      simp only [Except.check_bind_eq_ok_iff, Except.require_eq_ok_iff, Except.mapError_eq_ok_iff]
      constructor
      · rintro ⟨pub, hkey, hsig, hatt, hexp⟩
        exact ⟨⟨pub, hkey, hsig⟩, by simpa using hatt, hexp⟩
      · rintro ⟨⟨pub, hkey, hsig⟩, hatt, hexp⟩
        exact ⟨pub, hkey, hsig, hatt p rfl, hexp⟩

/-- The loop of `Verify`: the signatures, the attenuation and the expiries are checked apart. -/
theorem checkHops_eq_ok_iff {i : ℕ} {prev : Option Hop} {hops : List Hop} :
    checkHops S keys rootPrincipalID now i prev hops = .ok () ↔
      AuthenticHops S keys rootPrincipalID i prev hops ∧
      (prev.toList ++ hops).IsChain (fun a b => attenuates a.grant b.grant = .ok ()) ∧
      ∀ hop ∈ hops, hop.grant.notAfter = 0 ∨ now < hop.grant.notAfter := by
  induction hops generalizing i prev with
  | nil => cases prev <;> simp [checkHops, AuthenticHops]
  | cons hop hops ih =>
      have hchain : (prev.toList ++ hop :: hops).IsChain
          (fun a b => attenuates a.grant b.grant = .ok ()) ↔
          (∀ p ∈ prev, attenuates p.grant hop.grant = .ok ()) ∧
            (hop :: hops).IsChain fun a b => attenuates a.grant b.grant = .ok () := by
        cases prev <;> simp
      rw [checkHops, Except.check_bind_eq_ok_iff, checkHop_eq_ok_iff, ih, AuthenticHops, hchain,
        List.forall_mem_cons]
      simp only [Option.toList_some, List.singleton_append]
      tauto

theorem verify_eq_ok_iff {c : Chain} {opts : List VerifyOption} {res : Grant × Bytes} :
    verify S keys rootPrincipalID now c opts = .ok res ↔
      c.Authentic S keys rootPrincipalID opts ∧ c.Narrowing ∧
      (∀ hop ∈ c.hops, hop.grant.notAfter = 0 ∨ now < hop.grant.notAfter) ∧
      ∃ last ∈ c.hops.getLast?, res = (last.grant, last.delegate) := by
  rw [verify, Except.check_bind_eq_ok_iff, Except.check_bind_eq_ok_iff, checkHops_eq_ok_iff,
    Chain.Authentic, Chain.Narrowing]
  cases c.hops.getLast? with
  | none => simp
  | some last =>
      simp only [Option.toList_none, List.nil_append, Except.ok.injEq, Option.mem_some_iff,
        exists_eq_left', eq_comm]
      tauto

/-- When the grants narrow, the last expiry decides for all hops. -/
theorem Chain.Narrowing.unexpired_iff {c : Chain} (h : c.Narrowing) :
    (∀ hop ∈ c.hops, hop.grant.notAfter = 0 ∨ now < hop.grant.notAfter) ↔
      ∀ t ∈ c.lastNotAfter, t = 0 ∨ now < t := by
  rw [Chain.lastNotAfter]
  cases hlast : c.hops.getLast? with
  | none => simp [List.getLast?_eq_none_iff.mp hlast]
  | some last =>
      have hle : ∀ hop ∈ c.hops, last.grant ≤ hop.grant :=
        last_le_of_isChain (h.imp fun a b hab => attenuates_eq_ok_iff.mp hab) hlast
      constructor
      · rintro hall t ⟨⟩
        exact hall last (List.mem_of_getLast? hlast)
      · intro ht hop hhop
        by_cases hzero : hop.grant.notAfter = 0
        · exact .inl hzero
        · obtain ⟨hne, hexpiry⟩ := (Grant.le_def.mp (hle hop hhop)).2.2.1 hzero
          exact .inr (lt_of_lt_of_le ((ht _ rfl).resolve_left hne) hexpiry)

/-- What `Verify` decides on. -/
theorem accepts_iff {c : Chain} {opts : List VerifyOption} :
    c.Accepted S keys rootPrincipalID now opts ↔
      c.Authentic S keys rootPrincipalID opts ∧ c.Narrowing ∧ ∀ t ∈ c.lastNotAfter, t = 0 ∨ now < t := by
  rw [Chain.Accepted]
  constructor
  · rintro ⟨res, h⟩
    obtain ⟨hauth, hnarrow, hexp, -⟩ := verify_eq_ok_iff.mp h
    exact ⟨hauth, hnarrow, hnarrow.unexpired_iff.mp hexp⟩
  · rintro ⟨hauth, hnarrow, hexp⟩
    have hne : c.hops ≠ [] := by
      intro hnil
      have hshape := hauth.1
      rw [Chain.checkShape, hnil] at hshape
      cases hshape
    obtain ⟨last, hlast⟩ := Option.isSome_iff_exists.mp (List.getLast?_isSome.mpr hne)
    exact ⟨_, verify_eq_ok_iff.mpr ⟨hauth, hnarrow, hnarrow.unexpired_iff.mpr hexp, last, hlast, rfl⟩⟩

/-- The effective expiry is that of the last hop. -/
theorem notAfter_of_verify {c : Chain} {opts : List VerifyOption} {g : Grant} {agent : Bytes}
    (h : verify S keys rootPrincipalID now c opts = .ok (g, agent)) :
    c.lastNotAfter = some g.notAfter := by
  obtain ⟨-, -, -, last, hlast, hres⟩ := verify_eq_ok_iff.mp h
  obtain ⟨rfl, -⟩ := Prod.mk.inj hres
  rw [Chain.lastNotAfter, Option.mem_def.mp hlast, Option.map_some]

end

/-! ## Two presentations of one chain -/

/-- The two chains have the same parties and the same signatures over the same signing inputs. -/
structure Chain.SameSigned (c c' : Chain) : Prop where
  length : c.hops.length = c'.hops.length
  hops : ∀ i hop hop', c.hops[i]? = some hop → c'.hops[i]? = some hop' →
    hop.delegator = hop'.delegator ∧ hop.delegate = hop'.delegate ∧
      hop.signature = hop'.signature ∧
      canonical hop.delegator hop.delegate hop.grant (c.prevSig i) =
        canonical hop'.delegator hop'.delegate hop'.grant (c'.prevSig i)

/-- The two hops have the same parties, the same signature and the same canonical grant. -/
structure Hop.SameSigned (a b : Hop) : Prop where
  delegator : a.delegator = b.delegator
  delegate : a.delegate = b.delegate
  signature : a.signature = b.signature
  grant : grantJson a.grant = grantJson b.grant

theorem Chain.SameSigned.forall₂ {c c' : Chain} (h : c.SameSigned c') :
    List.Forall₂ Hop.SameSigned c.hops c'.hops := by
  refine List.forall₂_iff_get.mpr ⟨h.length, ?_⟩
  intro i hi hi'
  obtain ⟨hfrom, hto, hsig, hmsg⟩ := h.hops i _ _ (List.getElem?_eq_getElem hi)
    (List.getElem?_eq_getElem hi')
  exact ⟨hfrom, hto, hsig, (of_canonical_eq hmsg).2.2.1⟩

theorem canonical_congr {g g' : Grant} (h : grantJson g = grantJson g')
    (delegator delegate prev : Bytes) :
    canonical delegator delegate g prev = canonical delegator delegate g' prev := by
  obtain ⟨htools, hservers, hnotAfter, hbudget⟩ := grantJson_eq_iff.mp h
  have hlist := Json.object.inj hbudget
  rw [canonical, canonical, Json.ofFields, Json.ofFields, List.map_append, List.map_append,
    List.map_append, List.map_append, hlist, htools, hservers, hnotAfter]

theorem checkParties_congr {i : ℕ} {seen : List Bytes} {hops hops' : List Hop}
    (h : List.Forall₂ Hop.SameSigned hops hops') :
    checkParties i seen hops = checkParties i seen hops' := by
  induction h generalizing i seen with
  | nil => rfl
  | cons hhop _ ih => rw [checkParties, checkParties, hhop.delegator, hhop.delegate, ih]

theorem Chain.checkShape_congr {c c' : Chain} (h : List.Forall₂ Hop.SameSigned c.hops c'.hops)
    (limit : ℤ) : c.checkShape limit = c'.checkShape limit := by
  have hlength := h.length_eq
  have hparties : ∀ seen, checkParties 0 seen c.hops = checkParties 0 seen c'.hops := fun seen =>
    checkParties_congr h
  obtain ⟨hops⟩ := c
  obtain ⟨hops'⟩ := c'
  cases h with
  | nil => rfl
  | cons hhop _ =>
      simp only [Chain.checkShape]
      rw [hparties, hhop.delegator, hlength]

theorem delegatorKey_congr {keys : KeyRegistry} {root : Bytes} {i : ℕ} {prev prev' : Option Hop}
    {hop hop' : Hop} (hprev : prev.map Hop.delegate = prev'.map Hop.delegate)
    (hhop : hop.delegator = hop'.delegator) :
    delegatorKey keys root i prev hop = delegatorKey keys root i prev' hop' := by
  cases prev with
  | none =>
      cases prev' with
      | none => rw [delegatorKey, delegatorKey, hhop]
      | some p' => cases hprev
  | some p =>
      cases prev' with
      | none => cases hprev
      | some p' =>
          have hdelegate : p.delegate = p'.delegate := Option.some.inj hprev
          rw [delegatorKey, delegatorKey, hhop, hdelegate]

theorem authenticHops_congr {S : SignatureScheme} {keys : KeyRegistry} {root : Bytes} {i : ℕ}
    {prev prev' : Option Hop} {hops hops' : List Hop}
    (hdelegate : prev.map Hop.delegate = prev'.map Hop.delegate)
    (hsig : prev.map Hop.signature = prev'.map Hop.signature)
    (h : List.Forall₂ Hop.SameSigned hops hops') :
    AuthenticHops S keys root i prev hops ↔ AuthenticHops S keys root i prev' hops' := by
  induction h generalizing i prev prev' with
  | nil => exact Iff.rfl
  | @cons hop hop' _ _ hhop _ ih =>
      have hrest : AuthenticHops S keys root (i + 1) (some hop) _ ↔
          AuthenticHops S keys root (i + 1) (some hop') _ :=
        ih (congrArg some hhop.delegate) (congrArg some hhop.signature)
      rw [AuthenticHops, AuthenticHops, delegatorKey_congr hdelegate hhop.delegator, hsig,
        canonical_congr hhop.grant, hhop.delegator, hhop.delegate, hhop.signature, hrest]

theorem Chain.SameSigned.authentic_iff {c c' : Chain} (h : c.SameSigned c') {S : SignatureScheme}
    {keys : KeyRegistry} {root : Bytes} {opts : List VerifyOption} :
    c.Authentic S keys root opts ↔ c'.Authentic S keys root opts := by
  rw [Chain.Authentic, Chain.Authentic, Chain.checkShape_congr h.forall₂,
    authenticHops_congr rfl rfl h.forall₂]

/-! ## What is signed and what is authorized -/

/-- Whatever the registry, the root and the time, `Verify` accepts both chains or neither, and gives
both the same expiry. -/
def SameAuthority (S : SignatureScheme) (c c' : Chain) : Prop :=
  ∀ keys root now opts,
    (c.Accepted S keys root now opts ↔ c'.Accepted S keys root now opts) ∧
    ∀ g agent g' agent', verify S keys root now c opts = .ok (g, agent) →
      verify S keys root now c' opts = .ok (g', agent') → g.notAfter = g'.notAfter

/-- The grants of both chains narrow or those of neither do, and if they do they expire together. -/
def SameNarrowing (c c' : Chain) : Prop :=
  (c.Narrowing ↔ c'.Narrowing) ∧ (c.Narrowing → c.lastNotAfter = c'.lastNotAfter)

/-- At some time no hop has expired. -/
theorem exists_unexpired (hops : List Hop) :
    ∃ now : ℤ, ∀ hop ∈ hops, now < hop.grant.notAfter := by
  induction hops with
  | nil => exact ⟨0, by simp⟩
  | cons hop hops ih =>
      obtain ⟨now, hnow⟩ := ih
      refine ⟨min now (hop.grant.notAfter - 1), List.forall_mem_cons.mpr ⟨by omega, ?_⟩⟩
      intro a ha
      exact lt_of_le_of_lt (min_le_left _ _) (hnow a ha)

theorem Chain.lt_lastNotAfter {c : Chain} {now : ℤ} (h : ∀ hop ∈ c.hops, now < hop.grant.notAfter) :
    ∀ t ∈ c.lastNotAfter, t = 0 ∨ now < t := by
  intro t ht
  obtain ⟨last, hlast, rfl⟩ := Option.map_eq_some_iff.mp ht
  exact .inr (h last (List.mem_of_getLast? hlast))

theorem sameAuthority_of_sameNarrowing {S : SignatureScheme} {c c' : Chain} (h : c.SameSigned c')
    (hsame : SameNarrowing c c') : SameAuthority S c c' := by
  intro keys root now opts
  obtain ⟨hiff, hlast⟩ := hsame
  constructor
  · rw [accepts_iff, accepts_iff, h.authentic_iff, ← hiff]
    refine and_congr_right fun _ => and_congr_right fun hnarrow => ?_
    rw [hlast hnarrow]
  · intro g agent g' agent' hc hc'
    have heq := hlast (verify_eq_ok_iff.mp hc).2.1
    rw [notAfter_of_verify hc, notAfter_of_verify hc'] at heq
    exact Option.some.inj heq

/-- A chain that some registry authenticates is decided by its grants, at a time when no hop has
expired. -/
theorem sameNarrowing_of_sameAuthority {S : SignatureScheme} {c c' : Chain} (h : c.SameSigned c')
    {keys : KeyRegistry} {root : Bytes} {opts : List VerifyOption}
    (hauth : c.Authentic S keys root opts) (hsame : SameAuthority S c c') : SameNarrowing c c' := by
  obtain ⟨now, hnow⟩ := exists_unexpired (c.hops ++ c'.hops)
  have hexp := Chain.lt_lastNotAfter fun hop hhop => hnow hop (List.mem_append_left _ hhop)
  have hexp' := Chain.lt_lastNotAfter fun hop hhop => hnow hop (List.mem_append_right _ hhop)
  have hiff : c.Accepted S keys root now opts ↔ c.Narrowing := by
    rw [accepts_iff]
    exact ⟨fun hacc => hacc.2.1, fun hnarrow => ⟨hauth, hnarrow, hexp⟩⟩
  have hiff' : c'.Accepted S keys root now opts ↔ c'.Narrowing := by
    rw [accepts_iff]
    exact ⟨fun hacc => hacc.2.1, fun hnarrow => ⟨h.authentic_iff.mp hauth, hnarrow, hexp'⟩⟩
  obtain ⟨haccept, hnotAfter⟩ := hsame keys root now opts
  have hnarrowing : c.Narrowing ↔ c'.Narrowing := by rw [← hiff, haccept, hiff']
  refine ⟨hnarrowing, fun hnarrow => ?_⟩
  obtain ⟨⟨g, agent⟩, hc⟩ := hiff.mpr hnarrow
  obtain ⟨⟨g', agent'⟩, hc'⟩ := hiff'.mpr (hnarrowing.mp hnarrow)
  rw [notAfter_of_verify hc, notAfter_of_verify hc', hnotAfter _ _ _ _ hc hc']

/-- What is signed determines what is authorized exactly if no registry authenticates the
signatures, or the presentations agree on what the signatures leave open: whether the grants narrow,
and when the last one expires. -/
theorem sameAuthority_iff (S : SignatureScheme) (c c' : Chain) (h : c.SameSigned c') :
    SameAuthority S c c' ↔
      (∀ keys root opts, ¬c.Authentic S keys root opts) ∨ SameNarrowing c c' := by
  constructor
  · intro hsame
    by_cases hauth : ∃ keys root opts, c.Authentic S keys root opts
    · obtain ⟨keys, root, opts, hauth⟩ := hauth
      exact .inr (sameNarrowing_of_sameAuthority h hauth hsame)
    · refine .inl fun keys root opts hc => hauth ⟨keys, root, opts, hc⟩
  · rintro (hnone | hsame)
    · intro keys root now opts
      constructor
      · rw [accepts_iff, accepts_iff, ← h.authentic_iff]
        exact ⟨fun hacc => absurd hacc.1 (hnone _ _ _), fun hacc => absurd hacc.1 (hnone _ _ _)⟩
      · intro g agent g' agent' hc
        exact absurd (verify_eq_ok_iff.mp hc).1 (hnone _ _ _)
    · exact sameAuthority_of_sameNarrowing h hsame

namespace Sample

/-- A private key. -/
def key (n : UInt8) : Bytes := List.replicate 64 n

/-- The principal `p` and the agent `a` are registered. -/
def keys : KeyRegistry where
  principalKey id := if id = Bytes.ascii "p" then some ((key 1).drop 32) else none
  agentKey id := if id = Bytes.ascii "a" then some ((key 2).drop 32) else none

/-- A grant of two tools until the given time. -/
def grant (tools : List String) (notAfter : ℤ) : Grant where
  tools := tools.map Bytes.ascii
  servers := []
  notAfter := notAfter
  budget := none

/-- The chain with one hop, signed for the grant `signed` and presented with the grant `g`. -/
def chain (signed g : Grant) : Chain :=
  ⟨[⟨Bytes.ascii "p", Bytes.ascii "a", g, Sigctx.sign .free .delegationHop (key 1)
    (canonical (Bytes.ascii "p") (Bytes.ascii "a") signed [])⟩]⟩

theorem sameSigned_chain {signed g : Grant} (h : grantCanonical signed = grantCanonical g) :
    (chain signed signed).SameSigned (chain signed g) where
  length := rfl
  hops i hop hop' hhop hhop' := by
    cases i with
    | zero =>
        obtain ⟨⟩ := hhop
        obtain ⟨⟩ := hhop'
        exact ⟨rfl, rfl, rfl, canonical_congr (Json.render_injective h) _ _ _⟩
    | succ i => cases hhop

end Sample

/-- The order of the tools is not signed, and nothing depends on it. -/
theorem sameAuthority_iff_sorted :
    SameAuthority .free
      (Sample.chain (Sample.grant ["read", "write"] 9) (Sample.grant ["read", "write"] 9))
      (Sample.chain (Sample.grant ["read", "write"] 9) (Sample.grant ["write", "read"] 9)) := by
  refine (sameAuthority_iff _ _ _ (Sample.sameSigned_chain (by decide +kernel))).mpr (.inr ?_)
  exact ⟨⟨fun _ => List.isChain_singleton _, fun _ => List.isChain_singleton _⟩, fun _ => rfl⟩

/-- A grant that expired with the Unix epoch has the signing input of a grant without expiry. Its
holder presents it without one, and it is accepted at any time. A grant that expires on a whole
second is presented with an expiry just under a second later, and it is accepted in between. -/
theorem presented_expiry_authorizes :
    let epoch := Sample.grant ["read"] (62135596800 * Time.second)
    let whole := Sample.grant ["read"] (63900000000 * Time.second)
    let later := Sample.grant ["read"] (63900000000 * Time.second + 999999999)
    let now := 63900000000 * Time.second
    (Sample.chain epoch epoch).SameSigned (Sample.chain epoch (Sample.grant ["read"] 0)) ∧
      ¬SameAuthority .free (Sample.chain epoch epoch) (Sample.chain epoch (Sample.grant ["read"] 0)) ∧
      verify .free Sample.keys (Bytes.ascii "p") now (Sample.chain epoch epoch) [] =
        .error (.expired 0) ∧
      verify .free Sample.keys (Bytes.ascii "p") now (Sample.chain epoch (Sample.grant ["read"] 0)) [] =
        .ok (Sample.grant ["read"] 0, Bytes.ascii "a") ∧
      (Sample.chain whole whole).SameSigned (Sample.chain whole later) ∧
      verify .free Sample.keys (Bytes.ascii "p") now (Sample.chain whole whole) [] =
        .error (.expired 0) ∧
      verify .free Sample.keys (Bytes.ascii "p") now (Sample.chain whole later) [] =
        .ok (later, Bytes.ascii "a") := by
  intro epoch whole later now
  have hrefused : verify .free Sample.keys (Bytes.ascii "p") now (Sample.chain epoch epoch) [] =
      .error (.expired 0) := by decide +kernel
  have haccepted : verify .free Sample.keys (Bytes.ascii "p") now
      (Sample.chain epoch (Sample.grant ["read"] 0)) [] =
        .ok (Sample.grant ["read"] 0, Bytes.ascii "a") := by decide +kernel
  refine ⟨Sample.sameSigned_chain (by decide +kernel), ?_, hrefused, haccepted,
    Sample.sameSigned_chain (by decide +kernel), by decide +kernel, by decide +kernel⟩
  intro hsame
  obtain ⟨res, hres⟩ := (hsame Sample.keys (Bytes.ascii "p") now []).1.mpr ⟨_, haccepted⟩
  rw [hrefused] at hres
  cases hres

/-! ## Grants that their signing input determines -/

/-- The strings of the grant are valid UTF-8, and it expires on a whole second that is not the Unix
epoch, if at all. The expiry is one that a `time.Time` can hold. -/
structure Grant.Precise (g : Grant) : Prop where
  validUtf8 : g.ValidUtf8
  representable : Time.Representable g.notAfter
  whole : Time.second ∣ g.notAfter
  epoch : Time.unix g.notAfter ≠ 0

theorem Grant.Precise.notAfter_eq {g g' : Grant} (hg : g.Precise) (hg' : g'.Precise)
    (h : unixOrZero g.notAfter = unixOrZero g'.notAfter) : g.notAfter = g'.notAfter := by
  rw [unixOrZero, unixOrZero] at h
  split at h <;> split at h
  · next hzero hzero' => rw [hzero, hzero']
  · exact absurd h.symm hg'.epoch
  · exact absurd h hg.epoch
  · have hseconds : g.notAfter / Time.second = g'.notAfter / Time.second :=
      Time.seconds_eq_of_unix_eq hg.representable hg'.representable h
    rw [← Int.ediv_mul_cancel hg.whole, hseconds, Int.ediv_mul_cancel hg'.whole]

theorem narrowsList_of_sortedCopy_eq {s t : List Bytes} (h : sortedCopy s = sortedCopy t) :
    NarrowsList s t := by
  have hmem : ∀ x, x ∈ s ↔ x ∈ t := fun x => by rw [← mem_sortedCopy, h, mem_sortedCopy]
  intro ht
  refine ⟨?_, fun x hx => (hmem x).mp hx⟩
  rintro rfl
  exact ht (List.eq_nil_iff_forall_not_mem.mpr fun x hx => by simpa using (hmem x).mpr hx)

/-- Precise grants with the same signing input confer the same. -/
theorem Grant.Precise.le {g g' : Grant} (hg : g.Precise) (hg' : g'.Precise)
    (h : grantJson g = grantJson g') : g ≤ g' := by
  obtain ⟨htools, hservers, hnotAfter, hbudget⟩ := grantJson_eq_iff.mp h
  refine Grant.le_def.mpr ⟨?_, ?_, ?_, ?_⟩
  · exact narrowsList_of_sortedCopy_eq
      ((stringsJson_eq_iff hg.validUtf8.tools hg'.validUtf8.tools).mp htools)
  · exact narrowsList_of_sortedCopy_eq
      ((stringsJson_eq_iff hg.validUtf8.servers hg'.validUtf8.servers).mp hservers)
  · rw [hg.notAfter_eq hg' hnotAfter]
    exact fun hne => ⟨hne, le_rfl⟩
  · rw [budgetFields_injOn hg.validUtf8.budget hg'.validUtf8.budget hbudget]
    exact fun b hb => ⟨b, hb, rfl, le_rfl⟩

/-- Both hops are precise, and say the same. -/
def Hop.SamePrecise (a b : Hop) : Prop :=
  a.SameSigned b ∧ a.grant.Precise ∧ b.grant.Precise

theorem Hop.SamePrecise.symm {a b : Hop} (h : a.SamePrecise b) : b.SamePrecise a :=
  ⟨⟨h.1.delegator.symm, h.1.delegate.symm, h.1.signature.symm, h.1.grant.symm⟩, h.2.2, h.2.1⟩

theorem isChain_of_samePrecise {hops hops' : List Hop} (h : List.Forall₂ Hop.SamePrecise hops hops')
    (hchain : hops.IsChain fun a b => attenuates a.grant b.grant = .ok ()) :
    hops'.IsChain fun a b => attenuates a.grant b.grant = .ok () := by
  induction h with
  | nil => exact List.isChain_nil
  | @cons a a' as as' ha has ih =>
      cases has with
      | nil => exact List.isChain_singleton _
      | @cons b b' bs bs' hb hbs =>
          obtain ⟨hab, hrest⟩ := List.isChain_cons_cons.mp hchain
          refine List.isChain_cons_cons.mpr ⟨?_, ih hrest⟩
          rw [attenuates_eq_ok_iff] at hab ⊢
          calc b'.grant ≤ b.grant := hb.2.2.le hb.2.1 hb.1.grant.symm
            _ ≤ a.grant := hab
            _ ≤ a'.grant := ha.2.1.le ha.2.2 ha.1.grant

/-- For precise grants, what is signed determines what is authorized. -/
theorem sameAuthority_of_precise {S : SignatureScheme} {c c' : Chain} (h : c.SameSigned c')
    (hc : ∀ hop ∈ c.hops, hop.grant.Precise) (hc' : ∀ hop ∈ c'.hops, hop.grant.Precise) :
    SameAuthority S c c' := by
  have hpairs : List.Forall₂ Hop.SamePrecise c.hops c'.hops := by
    have hzip := List.forall₂_iff_zip.mp h.forall₂
    refine List.forall₂_iff_zip.mpr ⟨hzip.1, fun {a b} hab => ?_⟩
    exact ⟨hzip.2 hab, hc a (List.of_mem_zip hab).1, hc' b (List.of_mem_zip hab).2⟩
  refine sameAuthority_of_sameNarrowing h ⟨⟨?_, ?_⟩, fun _ => ?_⟩
  · exact isChain_of_samePrecise hpairs
  · exact isChain_of_samePrecise (hpairs.flip.imp fun a b hab => Hop.SamePrecise.symm hab)
  · have hmap : c.hops.map (fun hop => hop.grant.notAfter) =
        c'.hops.map fun hop => hop.grant.notAfter := by
      rw [← List.forall₂_eq_eq_eq, List.forall₂_map_left_iff, List.forall₂_map_right_iff]
      refine hpairs.imp fun a b hab => ?_
      exact hab.2.1.notAfter_eq hab.2.2 (grantJson_eq_iff.mp hab.1.grant).2.2.1
    rw [Chain.lastNotAfter, Chain.lastNotAfter, ← List.getLast?_map, hmap, List.getLast?_map]

end Sanad.Delegation
