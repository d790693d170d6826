import Sanad.Common.HashTree
import Sanad.Delegation.History
import Sanad.Delegation.Stage
import Sanad.Passport

/-! # The digest of a delegation chain

`pkg/types/delegation.go`: the summary of a chain on a passport holds the parties and a digest. The
digest is over a part of each hop: it leaves out the servers and the expiry. It fixes them all the
same, since it covers the signatures and a signature of an accepted chain fixes the whole hop
(`agrees_of_digestHop_eq`).
-/

namespace Sanad.Delegation

open Json Passport

/-! ## What the digest covers -/

/-- The hop of `ToTypes`. -/
def Hop.toTypes (hop : Hop) : DelegationHop :=
  ⟨hop.delegator, hop.delegate, hop.grant.scope, hop.signature⟩

/-- The bytes that `Digest` hashes. -/
def digestInput (c : DelegationChain) : Bytes := render (.array (c.hops.map digestHop))

/-- Every string of the hop is valid UTF-8. -/
structure Hop.ValidUtf8 (hop : Hop) : Prop where
  ids : hop.ValidIds
  grant : hop.grant.ValidUtf8

/-- The hops are the same up to the order of their lists and the fraction of the last second. -/
structure Hop.Agrees (a b : Hop) : Prop where
  delegator : a.delegator = b.delegator
  delegate : a.delegate = b.delegate
  signature : a.signature = b.signature
  tools : a.grant.tools.Perm b.grant.tools
  servers : a.grant.servers.Perm b.grant.servers
  budget : a.grant.budget = b.grant.budget
  notAfter : unixOrZero a.grant.notAfter = unixOrZero b.grant.notAfter

theorem perm_of_sortedCopy_eq {s t : List Bytes} (h : sortedCopy s = sortedCopy t) : s.Perm t := by
  have hs : (sortedCopy s).Perm s := List.perm_insertionSort _ s
  rw [h] at hs
  exact hs.symm.trans (List.perm_insertionSort _ t)

/-- What is hashed of a hop fixes its signature. -/
theorem signature_of_digestHop_eq {h h' : DelegationHop} (heq : digestHop h = digestHop h') :
    h.signature = h'.signature := by
  have hlist := Json.object.inj heq
  simp only [List.cons_append, List.nil_append, List.map_cons, List.cons.injEq, Prod.mk.injEq,
    true_and] at hlist
  obtain ⟨-, -, -, hrest⟩ := hlist
  exact (optionalFields_injective (by decide) (congrArg Json.object hrest)).2

section

variable {S : SignatureScheme} {signed : Bytes → Sigctx.Context → Bytes → Prop}

/-- The signature of a hop that an accepted chain may hold. -/
def Hop.Signed (S : SignatureScheme) (hop : Hop) : Prop :=
  ∃ pub prevSig, Sigctx.verify S .delegationHop pub
    (canonical hop.delegator hop.delegate hop.grant prevSig) hop.signature = true

/-- Signed hops of which the same is hashed agree: the signature in the digest was made for all of
the hop. -/
theorem agrees_of_digestHop_eq (hS : Sigctx.Symbolic S signed) {a b : Hop} (ha : a.Signed S)
    (hb : b.Signed S) (hvalid : a.ValidUtf8) (hvalid' : b.ValidUtf8)
    (h : digestHop a.toTypes = digestHop b.toTypes) : a.Agrees b := by
  have hsig : a.signature = b.signature := signature_of_digestHop_eq h
  obtain ⟨pub, prevSig, hverify⟩ := ha
  obtain ⟨pub', prevSig', hverify'⟩ := hb
  rw [← hsig] at hverify'
  obtain ⟨-, -, hmsg⟩ := hS.determines hverify hverify'
  obtain ⟨hfrom, hto, htools, hservers, hnotAfter, hbudget, -⟩ := (canonical_eq_iff hvalid.ids.1
    hvalid'.ids.1 hvalid.ids.2 hvalid'.ids.2 hvalid.grant hvalid'.grant).mp hmsg
  exact ⟨hfrom, hto, hsig, perm_of_sortedCopy_eq htools, perm_of_sortedCopy_eq hservers, hbudget,
    hnotAfter⟩

theorem signed_of_linked {keys : KeyRegistry} {prevSig : Bytes} {hops : List Hop}
    (h : Linked.Valid (SignedAfter S keys) Hop.signature prevSig hops) :
    ∀ hop ∈ hops, hop.Signed S := by
  induction hops generalizing prevSig with
  | nil => simp
  | cons hop hops ih =>
      obtain ⟨⟨pub, -, hverify⟩, hrest⟩ := h
      exact List.forall_mem_cons.mpr ⟨⟨pub, prevSig, hverify⟩, ih hrest⟩

end

theorem map_digestHop_of_digest_eq {w : ℕ} {H : Hash w} {c c' : DelegationChain}
    (hcollision : ¬ H.Collides [digestInput c, digestInput c'])
    (h : digest H.sum c = digest H.sum c') : c.hops.map digestHop = c'.hops.map digestHop := by
  have hinput : digestInput c = digestInput c' :=
    Hash.eq_of_not_collides hcollision (by simp) (by simp) h
  exact Json.array.inj (render_injective hinput)

/-! ## References -/

/-- The loop of `Matches` over the indices of the path. -/
def samePaths (got path : List Bytes) : Bool :=
  (List.range got.length).all fun i => got[i]? = path[i]?

/-- `DelegationChain.Matches` -/
def matchesRef (sha256 : Bytes → Bytes) (c : Option DelegationChain) (r : Option DelegationRef) :
    Bool :=
  match ref sha256 c, r with
  | none, r => r.isNone
  | some _, none => false
  | some got, some r =>
    if got.digest ≠ r.digest ∨ got.path.length ≠ r.path.length then false
    else samePaths got.path r.path

theorem samePaths_eq_true_iff {got path : List Bytes} (hlength : got.length = path.length) :
    samePaths got path = true ↔ got = path := by
  rw [samePaths, List.all_eq_true]
  constructor
  · intro h
    refine List.ext_getElem? fun i => ?_
    by_cases hi : i < got.length
    · exact of_decide_eq_true (h i (List.mem_range.mpr hi))
    · rw [List.getElem?_eq_none (by omega), List.getElem?_eq_none (by omega)]
  · rintro rfl i -
    exact decide_eq_true rfl

/-- A reference matches a chain exactly if it is the summary of the chain. -/
theorem matchesRef_eq_true_iff (sha256 : Bytes → Bytes) (c : Option DelegationChain)
    (r : Option DelegationRef) : matchesRef sha256 c r = true ↔ r = ref sha256 c := by
  unfold matchesRef
  cases ref sha256 c with
  | none => cases r <;> simp
  | some got =>
      cases r with
      | none => simp
      | some r =>
          obtain ⟨path, digest⟩ := got
          obtain ⟨path', digest'⟩ := r
          dsimp only
          rw [Option.some_inj, DelegationRef.mk.injEq]
          split
          · next hdiffers =>
              refine iff_of_false Bool.false_ne_true ?_
              rintro ⟨rfl, rfl⟩
              simp at hdiffers
          · next hsame =>
              rw [not_or, not_not, not_not] at hsame
              rw [samePaths_eq_true_iff hsame.2, hsame.1]
              exact ⟨fun h => ⟨h.symm, rfl⟩, fun h => h.1.symm⟩

/-- The digest of an accepted chain commits to all of it: two accepted chains with one digest have
the same hops, up to the order of the tools and the servers and the fraction of the last second. And
a reference matches a chain exactly if it is its summary, none for an absent or empty one. -/
theorem digest_commits (S : SignatureScheme) (signed : Bytes → Sigctx.Context → Bytes → Prop)
    (hS : Sigctx.Symbolic S signed) (keys : KeyRegistry) {w : ℕ} (H : Hash w) :
    (∀ root now c opts res root' now' c' opts' res', verify S keys root now c opts = .ok res →
      verify S keys root' now' c' opts' = .ok res' →
      (∀ hop ∈ c.hops, hop.ValidUtf8) → (∀ hop ∈ c'.hops, hop.ValidUtf8) →
      ¬ H.Collides [digestInput c.toTypes, digestInput c'.toTypes] →
      digest H.sum c.toTypes = digest H.sum c'.toTypes →
      List.Forall₂ Hop.Agrees c.hops c'.hops) ∧
    (∀ c r, matchesRef H.sum c r = true ↔ r = ref H.sum c) := by
  refine ⟨?_, matchesRef_eq_true_iff H.sum⟩
  intro root now c opts res root' now' c' opts' res' h h' hvalid hvalid' hcollision hdigest
  have hmap := map_digestHop_of_digest_eq hcollision hdigest
  have htypes : ∀ c : Chain, c.toTypes.hops.map digestHop = c.hops.map (digestHop ∘ Hop.toTypes) :=
    fun c => List.map_map
  rw [htypes, htypes] at hmap
  have hsigned := signed_of_linked (valid_of_verify hS h)
  have hsigned' := signed_of_linked (valid_of_verify hS h')
  refine forall₂_of_map_eq ?_ hmap
  intro a ha b hb heq
  exact agrees_of_digestHop_eq hS (hsigned a ha) (hsigned' b hb) (hvalid a ha) (hvalid' b hb) heq

/-- Two presentations of one chain: the servers in another order and the expiry moved within its
second, neither of which is hashed. -/
theorem digest_commits_two_hops :
    let key := fun (n : UInt8) => List.replicate 64 n
    let keys : KeyRegistry :=
      { principalKey := fun id => if id = Bytes.ascii "p" then some ((key 1).drop 32) else none
        agentKey := fun id => if id = Bytes.ascii "a" then some ((key 2).drop 32) else none }
    let wide : Grant := { tools := [], servers := [], notAfter := 0, budget := none }
    let narrow : Grant :=
      { tools := [Bytes.ascii "read"], servers := [Bytes.ascii "x", Bytes.ascii "y"], notAfter := 9,
        budget := none }
    let narrow' : Grant :=
      { narrow with servers := [Bytes.ascii "y", Bytes.ascii "x"], notAfter := 10 }
    let msg₀ := canonical (Bytes.ascii "p") (Bytes.ascii "a") wide []
    let sig₀ := Sigctx.sign .free .delegationHop (key 1) msg₀
    let msg₁ := canonical (Bytes.ascii "a") (Bytes.ascii "b") narrow sig₀
    let S := SignatureScheme.logged [((key 1).drop 32, Sigctx.message .delegationHop msg₀),
      ((key 2).drop 32, Sigctx.message .delegationHop msg₁)]
    let sig₁ := Sigctx.sign S .delegationHop (key 2) msg₁
    let root : Hop := ⟨Bytes.ascii "p", Bytes.ascii "a", wide, sig₀⟩
    let c : Chain := ⟨[root, ⟨Bytes.ascii "a", Bytes.ascii "b", narrow, sig₁⟩]⟩
    let c' : Chain := ⟨[root, ⟨Bytes.ascii "a", Bytes.ascii "b", narrow', sig₁⟩]⟩
    verify S keys (Bytes.ascii "p") 8 c [] = .ok (narrow, Bytes.ascii "b") ∧
      verify S keys (Bytes.ascii "p") 7 c' [] = .ok (narrow', Bytes.ascii "b") ∧
      List.Forall₂ Hop.Agrees c.hops c'.hops := by
  intro key keys wide narrow narrow' msg₀ sig₀ msg₁ S sig₁ root c c'
  have hc : verify S keys (Bytes.ascii "p") 8 c [] = .ok (narrow, Bytes.ascii "b") := by
    decide +kernel
  have hc' : verify S keys (Bytes.ascii "p") 7 c' [] = .ok (narrow', Bytes.ascii "b") := by
    decide +kernel
  have hvalid : ∀ hop ∈ c.hops ++ c'.hops, hop.ValidUtf8 := by
    have hids : ∀ hop ∈ c.hops ++ c'.hops,
        Utf8.valid hop.delegator = true ∧ Utf8.valid hop.delegate = true := by decide +kernel
    have hgrants : ∀ hop ∈ c.hops ++ c'.hops, (∀ t ∈ hop.grant.tools, Utf8.valid t = true) ∧
        (∀ t ∈ hop.grant.servers, Utf8.valid t = true) ∧
        ∀ b ∈ hop.grant.budget, Utf8.valid b.unit = true := by decide +kernel
    intro hop hhop
    obtain ⟨htools, hservers, hbudget⟩ := hgrants hop hhop
    exact ⟨hids hop hhop, htools, hservers, hbudget⟩
  have hinput : digestInput c.toTypes = digestInput c'.toTypes := rfl
  have hcollision : ¬ (Hash.checksum 32).Collides [digestInput c.toTypes, digestInput c'.toTypes] := by
    rw [← hinput]
    rintro ⟨x, hx, y, hy, hne, -⟩
    simp only [List.mem_cons, List.not_mem_nil, or_false, or_self] at hx hy
    exact hne (hx.trans hy.symm)
  have hcommits := (digest_commits S _ (Sigctx.symbolic_logged _) keys (.checksum 32)).1
  refine ⟨hc, hc', hcommits _ _ c _ _ _ _ c' _ _ hc hc' ?_ ?_ hcollision ?_⟩
  · exact fun hop hhop => hvalid hop (List.mem_append_left _ hhop)
  · exact fun hop hhop => hvalid hop (List.mem_append_right _ hhop)
  · exact congrArg (Hash.checksum 32).sum hinput

end Sanad.Delegation
