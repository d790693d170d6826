import Sanad.Common.Json.RoundTrip
import Sanad.Common.Linked
import Sanad.Delegation.Capability

/-! # The history of a delegation chain

`delegation/delegation.go` and `verify.go`: a hop's signature covers the hop and the signature of
the hop before. So the last signature of an accepted chain fixes every hop of it, if a signature
determines what it was made for (`Sigctx.Symbolic`) and the signing input determines the hop
(`canonical_eq_iff`). The argument is the one for linked records, from the last record backwards.
-/

namespace Sanad

/-- A symbolic signature scheme: a signature is a non-empty term that determines its key, its context
and its message, and it verifies only if the owner of the key signed that message in that context.
-/
structure Sigctx.Symbolic (S : SignatureScheme) (signed : Bytes → Context → Bytes → Prop) :
    Prop where
  signed_of_verify : ∀ {ctx pub msg sig}, verify S ctx pub msg sig = true → signed pub ctx msg
  determines : ∀ {ctx ctx' pub pub' msg msg' sig}, verify S ctx pub msg sig = true →
    verify S ctx' pub' msg' sig = true → pub = pub' ∧ ctx = ctx' ∧ msg = msg'
  nonempty : ∀ {ctx pub msg sig}, verify S ctx pub msg sig = true → sig ≠ []

theorem Sigctx.symbolic_logged (log : List (Bytes × Bytes)) :
    Symbolic (.logged log) fun pub ctx msg => (pub, message ctx msg) ∈ log where
  signed_of_verify h := by
    rw [verify, Bool.and_eq_true, SignatureScheme.verify_logged] at h
    exact h.2.2
  determines h h' := by
    rw [verify, Bool.and_eq_true, SignatureScheme.verify_logged] at h h'
    obtain ⟨hpub, hmessage⟩ := SignatureScheme.term_injective (h.2.1.symm.trans h'.2.1)
    exact ⟨hpub, message_injective hmessage⟩
  nonempty h := by
    rw [verify, Bool.and_eq_true, SignatureScheme.verify_logged] at h
    rw [h.2.1]
    exact SignatureScheme.term_ne_nil _ _

namespace Delegation

/-! ## The signing input -/

/-- Every string of the grant is valid UTF-8. -/
structure Grant.ValidUtf8 (g : Grant) : Prop where
  tools : ∀ t ∈ g.tools, Utf8.valid t = true
  servers : ∀ s ∈ g.servers, Utf8.valid s = true
  budget : ∀ b ∈ g.budget, Utf8.valid b.unit = true

theorem mem_sortedCopy {x : Bytes} {s : List Bytes} : x ∈ sortedCopy s ↔ x ∈ s :=
  (List.perm_insertionSort _ s).mem_iff

/-- A list in the signing input determines the sorted list, and is determined by it. -/
theorem stringsJson_eq_iff {s t : List Bytes} (hs : ∀ x ∈ s, Utf8.valid x = true)
    (ht : ∀ x ∈ t, Utf8.valid x = true) :
    stringsJson s = stringsJson t ↔ sortedCopy s = sortedCopy t := by
  have hlength : ∀ u : List Bytes, (sortedCopy u).length = u.length := fun u =>
    List.length_insertionSort _ u
  constructor
  · intro h
    rw [stringsJson, stringsJson] at h
    split at h <;> split at h
    · next hs₀ ht₀ => rw [List.length_eq_zero_iff.mp hs₀, List.length_eq_zero_iff.mp ht₀]
    · cases h
    · cases h
    · refine Json.map_ofString_injOn ?_ ?_ (Json.array.inj h)
      · exact fun x hx => hs x (mem_sortedCopy.mp hx)
      · exact fun x hx => ht x (mem_sortedCopy.mp hx)
  · intro h
    rw [stringsJson, stringsJson, ← hlength s, ← hlength t, h]

theorem budgetFields_injOn {b b' : Option Budget} (hb : ∀ x ∈ b, Utf8.valid x.unit = true)
    (hb' : ∀ x ∈ b', Utf8.valid x.unit = true) (h : Json.ofFields (budgetFields b) =
      .ofFields (budgetFields b')) : b = b' := by
  cases b with
  | none =>
      cases b' with
      | none => rfl
      | some y => cases h
  | some x =>
      cases b' with
      | none => cases h
      | some y =>
          have hfields := Json.object.inj (Prod.mk.inj (List.cons.inj (Json.object.inj h)).1).2
          simp only [List.map_cons, List.map_nil, List.cons.injEq, Prod.mk.injEq, true_and,
            and_true] at hfields
          have hlimit := Json.ofInt_injective hfields.1
          have hunit := Json.ofString_injOn (hb x rfl) (hb' y rfl) hfields.2
          obtain ⟨limit, unit⟩ := x
          exact congrArg some (by rw [Budget.mk.injEq]; exact ⟨hlimit, hunit⟩)

/-- An optional budget and the optional bytes after it are told apart by their names. -/
theorem optionalFields_injective {name : String}
    (hname : Json.quote (Bytes.ascii name) ≠ Json.quote (Bytes.ascii "budget"))
    {b b' : Option Budget} {prev prev' : Bytes}
    (h : Json.ofFields (budgetFields b ++ bytesFields name prev) =
      .ofFields (budgetFields b' ++ bytesFields name prev')) :
    Json.ofFields (budgetFields b) = .ofFields (budgetFields b') ∧ prev = prev' := by
  have hlist := Json.object.inj h
  rw [List.map_append, List.map_append] at hlist
  cases b with
  | none =>
      cases b' with
      | none => exact ⟨rfl, bytesFields_injective h⟩
      | some y =>
          rw [bytesFields] at hlist
          split at hlist
          · cases hlist
          · exact absurd (Prod.mk.inj (List.cons.inj hlist).1).1 hname
  | some x =>
      cases b' with
      | none =>
          rw [bytesFields, bytesFields] at hlist
          split at hlist <;> split at hlist
          · cases hlist
          · exact absurd (Prod.mk.inj (List.cons.inj hlist).1).1.symm hname
          · cases hlist
          · exact absurd (Prod.mk.inj (List.cons.inj hlist).1).1.symm hname
      | some y =>
          obtain ⟨hbudget, hprev⟩ := List.cons.inj hlist
          refine ⟨?_, bytesFields_injective (congrArg Json.object hprev)⟩
          exact congrArg (fun m => Json.object [m]) hbudget

theorem grantJson_eq_iff {g g' : Grant} :
    grantJson g = grantJson g' ↔
      stringsJson g.tools = stringsJson g'.tools ∧ stringsJson g.servers = stringsJson g'.servers ∧
        unixOrZero g.notAfter = unixOrZero g'.notAfter ∧
        Json.ofFields (budgetFields g.budget) = .ofFields (budgetFields g'.budget) := by
  constructor
  · intro h
    have hlist := Json.object.inj h
    simp only [List.cons_append, List.nil_append, List.map_cons, List.cons.injEq, Prod.mk.injEq,
      true_and] at hlist
    obtain ⟨htools, hservers, hnotAfter, hbudget⟩ := hlist
    exact ⟨htools, hservers, Json.ofInt_injective hnotAfter, congrArg Json.object hbudget⟩
  · rintro ⟨htools, hservers, hnotAfter, hbudget⟩
    have hlist := Json.object.inj hbudget
    rw [grantJson, grantJson, Json.ofFields, Json.ofFields, List.map_append, List.map_append, hlist,
      htools, hservers, hnotAfter]

/-- A hop's signing input fixes the parties as they are quoted, the canonical grant and the previous
signature. -/
theorem of_canonical_eq {delegator delegator' delegate delegate' : Bytes} {g g' : Grant}
    {prev prev' : Bytes}
    (h : canonical delegator delegate g prev = canonical delegator' delegate' g' prev') :
    Json.ofString delegator = .ofString delegator' ∧ Json.ofString delegate = .ofString delegate' ∧
      grantJson g = grantJson g' ∧ prev = prev' := by
  have hlist := Json.object.inj (Json.render_injective h)
  simp only [List.cons_append, List.nil_append, List.map_cons, List.cons.injEq, Prod.mk.injEq,
    true_and] at hlist
  obtain ⟨hdelegator, hdelegate, htools, hservers, hnotAfter, hrest⟩ := hlist
  obtain ⟨hbudget, hprev⟩ := optionalFields_injective (by decide) (congrArg Json.object hrest)
  exact ⟨hdelegator, hdelegate,
    grantJson_eq_iff.mpr ⟨htools, hservers, Json.ofInt_injective hnotAfter, hbudget⟩, hprev⟩

/-- Over valid UTF-8, the signing input is equivalent to what the hop says: the parties, the sorted
lists, the expiry in whole seconds, the budget and the previous signature. -/
theorem canonical_eq_iff {delegator delegator' delegate delegate' : Bytes} {g g' : Grant}
    {prev prev' : Bytes} (hfrom : Utf8.valid delegator = true) (hfrom' : Utf8.valid delegator' = true)
    (hto : Utf8.valid delegate = true) (hto' : Utf8.valid delegate' = true) (hg : g.ValidUtf8)
    (hg' : g'.ValidUtf8) :
    canonical delegator delegate g prev = canonical delegator' delegate' g' prev' ↔
      delegator = delegator' ∧ delegate = delegate' ∧
        sortedCopy g.tools = sortedCopy g'.tools ∧ sortedCopy g.servers = sortedCopy g'.servers ∧
        unixOrZero g.notAfter = unixOrZero g'.notAfter ∧ g.budget = g'.budget ∧ prev = prev' := by
  constructor
  · intro h
    obtain ⟨hdelegator, hdelegate, hgrant, hprev⟩ := of_canonical_eq h
    obtain ⟨htools, hservers, hnotAfter, hbudget⟩ := grantJson_eq_iff.mp hgrant
    exact ⟨Json.ofString_injOn hfrom hfrom' hdelegator, Json.ofString_injOn hto hto' hdelegate,
      (stringsJson_eq_iff hg.tools hg'.tools).mp htools,
      (stringsJson_eq_iff hg.servers hg'.servers).mp hservers, hnotAfter,
      budgetFields_injOn hg.budget hg'.budget hbudget, hprev⟩
  · rintro ⟨rfl, rfl, htools, hservers, hnotAfter, hbudget, rfl⟩
    rw [canonical, canonical, (stringsJson_eq_iff hg.tools hg'.tools).mpr htools,
      (stringsJson_eq_iff hg.servers hg'.servers).mpr hservers, hnotAfter, hbudget]

/-! ## The hops of an accepted chain -/

/-- The namespace in which the delegator of a hop is looked up. No signature is empty, so the
previous signature is empty at the root only. -/
def KeyRegistry.signerKey (keys : KeyRegistry) (prevSig : Bytes) : Bytes → Option Bytes :=
  if prevSig = [] then keys.principalKey else keys.agentKey

/-- The hop carries a signature by its delegator's registered key over the hop and the previous
signature. -/
def SignedAfter (S : SignatureScheme) (keys : KeyRegistry) (prevSig : Bytes) (hop : Hop) : Prop :=
  ∃ pub, keys.signerKey prevSig hop.delegator = some pub ∧ Sigctx.verify S .delegationHop pub
    (canonical hop.delegator hop.delegate hop.grant prevSig) hop.signature = true

/-- The ids of the hop's parties are valid UTF-8. -/
def Hop.ValidIds (hop : Hop) : Prop :=
  Utf8.valid hop.delegator = true ∧ Utf8.valid hop.delegate = true

/-- What the history of a chain records of a hop: the parties, the canonical grant and the signature.
-/
def Hop.record (hop : Hop) : Bytes × Bytes × Bytes × Bytes :=
  (hop.delegator, hop.delegate, grantCanonical hop.grant, hop.signature)

section

variable {S : SignatureScheme} {signed : Bytes → Sigctx.Context → Bytes → Prop}
  {keys : KeyRegistry} {rootPrincipalID : Bytes} {now : ℤ}

theorem SignedAfter.signature_ne_nil (hS : Sigctx.Symbolic S signed) {prevSig : Bytes} {hop : Hop}
    (h : SignedAfter S keys prevSig hop) : hop.signature ≠ [] := by
  obtain ⟨pub, -, hverify⟩ := h
  exact hS.nonempty hverify

/-- One signature on two hops: the hops say the same, and follow the same signature. -/
theorem SignedAfter.record_eq (hS : Sigctx.Symbolic S signed) {prevSig prevSig' : Bytes}
    {hop hop' : Hop} (h : SignedAfter S keys prevSig hop ∧ hop.ValidIds)
    (h' : SignedAfter S keys prevSig' hop' ∧ hop'.ValidIds) (hsig : hop.signature = hop'.signature) :
    prevSig = prevSig' ∧ hop.record = hop'.record := by
  obtain ⟨⟨pub, -, hverify⟩, hfrom, hto⟩ := h
  obtain ⟨⟨pub', -, hverify'⟩, hfrom', hto'⟩ := h'
  rw [← hsig] at hverify'
  obtain ⟨-, -, hmsg⟩ := hS.determines hverify hverify'
  obtain ⟨hdelegator, hdelegate, hgrant, hprev⟩ := of_canonical_eq hmsg
  refine ⟨hprev, ?_⟩
  rw [Hop.record, Hop.record, Json.ofString_injOn hfrom hfrom' hdelegator,
    Json.ofString_injOn hto hto' hdelegate, grantCanonical, hgrant, hsig, grantCanonical]

/-- The loop of `Verify` after a hop `p`: each hop is signed after the one before. -/
theorem valid_of_checkHops (hS : Sigctx.Symbolic S signed) {i : ℕ} {p : Hop} {hops : List Hop}
    (hp : p.signature ≠ []) (h : checkHops S keys rootPrincipalID now i (some p) hops = .ok ()) :
    Linked.Valid (SignedAfter S keys) Hop.signature p.signature hops := by
  induction hops generalizing i p with
  | nil => trivial
  | cons hop hops ih =>
      rw [checkHops, Except.check_bind_eq_ok_iff, checkHop_later] at h
      obtain ⟨⟨-, ⟨pub, hkey, hverify⟩, -⟩, hrest⟩ := h
      have hhop : SignedAfter S keys p.signature hop := by
        refine ⟨pub, ?_, hverify⟩
        rw [KeyRegistry.signerKey, if_neg hp]
        exact hkey
      exact ⟨hhop, ih (hhop.signature_ne_nil hS) hrest⟩

/-- An accepted chain is a history of signed hops. -/
theorem valid_of_verify (hS : Sigctx.Symbolic S signed) {c : Chain} {opts : List VerifyOption}
    {res : Grant × Bytes} (h : verify S keys rootPrincipalID now c opts = .ok res) :
    Linked.Valid (SignedAfter S keys) Hop.signature [] c.hops := by
  rw [verify, Except.check_bind_eq_ok_iff, Except.check_bind_eq_ok_iff] at h
  obtain ⟨-, hhops, -⟩ := h
  obtain ⟨hops⟩ := c
  cases hops with
  | nil => trivial
  | cons hop hops =>
      rw [checkHops, Except.check_bind_eq_ok_iff, checkHop_root] at hhops
      obtain ⟨⟨-, ⟨pub, hkey, hverify⟩, -⟩, hrest⟩ := hhops
      have hhop : SignedAfter S keys [] hop := ⟨pub, hkey, hverify⟩
      exact ⟨hhop, valid_of_checkHops hS (hhop.signature_ne_nil hS) hrest⟩

end

/-- The signature of the hop before the hop with index `i`, nil if there is none. -/
def Chain.prevSig (c : Chain) : ℕ → Bytes
  | 0 => []
  | i + 1 => (c.hops[i]?.map Hop.signature).getD []

theorem Chain.lastTag_take {c : Chain} {i : ℕ} (hi : i < c.hops.length) :
    Linked.lastTag Hop.signature [] (c.hops.take i) = c.prevSig i := by
  cases i with
  | zero => rfl
  | succ i =>
      have hlt : i < c.hops.length := by omega
      rw [← List.take_append_getElem hlt, Linked.lastTag_concat, Chain.prevSig,
        List.getElem?_eq_getElem hlt]
      rfl

/-- A chain cannot be forged, spliced or reordered. Every hop of an accepted chain was signed as a
hop, with the signature before it, by the owner of its delegator's key: the principal's at the root,
an agent's after it. Two accepted chains that end in the same signature record the same hops. This
rests on the signing input being injective. -/
theorem verify_history_unique (S : SignatureScheme)
    (signed : Bytes → Sigctx.Context → Bytes → Prop) (hS : Sigctx.Symbolic S signed)
    (keys : KeyRegistry) :
    (∀ root now c opts res, verify S keys root now c opts = .ok res →
      ∀ i, (hi : i < c.hops.length) → ∃ pub,
        (if i = 0 then keys.principalKey else keys.agentKey) c.hops[i].delegator = some pub ∧
        signed pub .delegationHop (canonical c.hops[i].delegator c.hops[i].delegate c.hops[i].grant
          (c.prevSig i))) ∧
    (∀ root now c opts res root' now' c' opts' res', verify S keys root now c opts = .ok res →
      verify S keys root' now' c' opts' = .ok res' →
      (∀ hop ∈ c.hops, hop.ValidIds) → (∀ hop ∈ c'.hops, hop.ValidIds) →
      c.hops.getLast?.map Hop.signature = c'.hops.getLast?.map Hop.signature →
      c.hops.map Hop.record = c'.hops.map Hop.record) ∧
    (∀ (delegator delegator' delegate delegate' : Bytes) (g g' : Grant) (prev prev' : Bytes),
      Utf8.valid delegator = true → Utf8.valid delegator' = true → Utf8.valid delegate = true →
      Utf8.valid delegate' = true → g.ValidUtf8 → g'.ValidUtf8 →
      canonical delegator delegate g prev = canonical delegator' delegate' g' prev' →
      delegator = delegator' ∧ delegate = delegate' ∧
        sortedCopy g.tools = sortedCopy g'.tools ∧ sortedCopy g.servers = sortedCopy g'.servers ∧
        unixOrZero g.notAfter = unixOrZero g'.notAfter ∧ g.budget = g'.budget ∧ prev = prev') := by
  refine ⟨?_, ?_, ?_⟩
  · intro root now c opts res h i hi
    have hvalid := valid_of_verify hS h
    obtain ⟨pub, hkey, hverify⟩ := hvalid.getElem i hi
    rw [Chain.lastTag_take hi] at hkey hverify
    refine ⟨pub, ?_, hS.signed_of_verify hverify⟩
    cases i with
    | zero => exact hkey
    | succ i =>
        -- the hop before is signed as well, so its signature is not empty
        have hlt : i < c.hops.length := by omega
        have hne := (hvalid.getElem i hlt).signature_ne_nil hS
        rw [Chain.prevSig, List.getElem?_eq_getElem hlt, KeyRegistry.signerKey,
          if_neg (by exact hne)] at hkey
        exact hkey
  · intro root now c opts res root' now' c' opts' res' h h' hids hids' hlast
    refine ((valid_of_verify hS h).and hids).map_eq ?_ ?_ ((valid_of_verify hS h').and hids') ?_
    · intro prevSig hop hhop
      exact hhop.1.signature_ne_nil hS
    · intro prevSig prevSig' hop hop' hhop hhop' hsig
      exact SignedAfter.record_eq hS hhop hhop' hsig
    · rw [Linked.lastTag, Linked.lastTag, hlast]
  · intro delegator delegator' delegate delegate' g g' prev prev' hfrom hfrom' hto hto' hg hg' h
    exact (canonical_eq_iff hfrom hfrom' hto hto' hg hg').mp h

/-- Two presentations of one chain: the tools in another order and the expiry moved within its
second. -/
theorem verify_history_unique_two_hops :
    let key := fun (n : UInt8) => List.replicate 64 n
    let keys : KeyRegistry :=
      { principalKey := fun id => if id = Bytes.ascii "p" then some ((key 1).drop 32) else none
        agentKey := fun id => if id = Bytes.ascii "a" then some ((key 2).drop 32) else none }
    let wide : Grant := { tools := [], servers := [], notAfter := 0, budget := none }
    let narrow : Grant :=
      { tools := [Bytes.ascii "read", Bytes.ascii "write"], servers := [], notAfter := 9,
        budget := some ⟨5, Bytes.ascii "usd"⟩ }
    let narrow' : Grant :=
      { narrow with tools := [Bytes.ascii "write", Bytes.ascii "read"], notAfter := 10 }
    let msg₀ := canonical (Bytes.ascii "p") (Bytes.ascii "a") wide []
    let sig₀ := Sigctx.sign .free .delegationHop (key 1) msg₀
    let msg₁ := canonical (Bytes.ascii "a") (Bytes.ascii "b") narrow sig₀
    let S := SignatureScheme.logged [((key 1).drop 32, Sigctx.message .delegationHop msg₀),
      ((key 2).drop 32, Sigctx.message .delegationHop msg₁)]
    let sig₁ := Sigctx.sign S .delegationHop (key 2) msg₁
    let root : Hop := ⟨Bytes.ascii "p", Bytes.ascii "a", wide, sig₀⟩
    let c : Chain := ⟨[root, ⟨Bytes.ascii "a", Bytes.ascii "b", narrow, sig₁⟩]⟩
    let c' : Chain := ⟨[root, ⟨Bytes.ascii "a", Bytes.ascii "b", narrow', sig₁⟩]⟩
    verify S keys (Bytes.ascii "p") 8 c [] = .ok (narrow, Bytes.ascii "b") ∧
      verify S keys (Bytes.ascii "p") 7 c' [] = .ok (narrow', Bytes.ascii "b") ∧
      c.hops.map Hop.record = c'.hops.map Hop.record := by
  intro key keys wide narrow narrow' msg₀ sig₀ msg₁ S sig₁ root c c'
  have hc : verify S keys (Bytes.ascii "p") 8 c [] = .ok (narrow, Bytes.ascii "b") := by
    decide +kernel
  have hc' : verify S keys (Bytes.ascii "p") 7 c' [] = .ok (narrow', Bytes.ascii "b") := by
    decide +kernel
  have hids : ∀ hop ∈ c.hops, hop.ValidIds := by
    unfold Hop.ValidIds
    decide +kernel
  have hids' : ∀ hop ∈ c'.hops, hop.ValidIds := by
    unfold Hop.ValidIds
    decide +kernel
  have huniq := (verify_history_unique S _ (Sigctx.symbolic_logged _) keys).2.1
  exact ⟨hc, hc', huniq _ _ c _ _ _ _ c' _ _ hc hc' hids hids' rfl⟩

end Delegation

end Sanad
