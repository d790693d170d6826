import Sanad.Delegation.Capability

/-! # Offline capabilities against an attacker

A holder of a capability cannot broaden it. The attacker is symbolic: it holds some private keys, it
has seen every token of the capability's history and any holder proof, and where a signature is
expected it can only put what it has seen, what it signs itself, or a string that is nobody's
signature.
-/

namespace Sanad.Delegation

/-! ## The tokens that are issued -/

section

variable (S : SignatureScheme)

/-- The token with one more block, signed with `priv`, and its holder secret. -/
def extendBlocks (priv rootPub : Bytes) (blocks : List Block) (g : Grant) (nextPriv : Bytes) :
    Capability × Bytes :=
  let nextPub := S.publicKey nextPriv
  let sig := Sigctx.sign S .capabilityBlock priv
    (blockMsg rootPub blocks.length (prevSig blocks.getLast?) g nextPub)
  (⟨blocks ++ [⟨g, nextPub, sig⟩], sealBlocks S nextPriv rootPub (blocks ++ [⟨g, nextPub, sig⟩])⟩,
    nextPriv)

/-- A token with its holder secret, and the tokens before it, newest first: what one call of
`NewCapability` and then calls of `Attenuate` have returned. -/
inductive Issued (rootPriv : Bytes) : Capability × Bytes → List (Capability × Bytes) → Prop where
  | root {g : Grant} {generated : Option Bytes} {t : Capability × Bytes}
      (h : newCapability S rootPriv g generated = .ok t) : Issued rootPriv t []
  | attenuate {g : Grant} {generated : Option Bytes} {t t' : Capability × Bytes}
      {earlier : List (Capability × Bytes)} (hissued : Issued rootPriv t earlier)
      (h : t.1.attenuate S (S.publicKey rootPriv) t.2 g generated = .ok t') :
      Issued rootPriv t' (t :: earlier)

/-- Who signed what in a token. -/
structure Genuine (rootPub : Bytes) (t : Capability × Bytes) : Prop where
  signed : ∀ i b, t.1.blocks[i]? = some b → ∃ priv, b.signature =
    Sigctx.sign S .capabilityBlock priv
      (blockMsg rootPub i (prevSig (blockBefore t.1.blocks i)) b.grant b.nextPub)
  sealed : ∃ msg, t.1.sealSig = Sigctx.sign S .capabilitySeal t.2 msg
  holder : ∃ b ∈ t.1.blocks.getLast?, b.nextPub = S.publicKey t.2

end

section

variable {S : SignatureScheme} {rootPriv : Bytes} {t : Capability × Bytes}
  {earlier : List (Capability × Bytes)}

theorem eq_extendBlocks_of_newCapability {g : Grant} {generated : Option Bytes}
    (h : newCapability S rootPriv g generated = .ok t) :
    ∃ nextPriv, t = extendBlocks S rootPriv (S.publicKey rootPriv) [] g nextPriv := by
  rw [newCapability, Except.check_bind_eq_ok_iff, Except.bind_eq_ok_iff] at h
  obtain ⟨-, nextPriv, -, ht⟩ := h
  exact ⟨nextPriv, (Except.ok.inj ht).symm⟩

theorem eq_extendBlocks_of_attenuate {c : Capability} {rootPub holderSecret : Bytes} {g : Grant}
    {generated : Option Bytes} (h : c.attenuate S rootPub holderSecret g generated = .ok t) :
    ∃ nextPriv, t = extendBlocks S holderSecret rootPub c.blocks g nextPriv := by
  rw [Capability.attenuate, Except.bind_eq_ok_iff] at h
  obtain ⟨last, hlast, h⟩ := h
  rw [Except.check_bind_eq_ok_iff, Except.check_bind_eq_ok_iff, Except.check_bind_eq_ok_iff,
    Except.bind_eq_ok_iff] at h
  obtain ⟨-, -, -, nextPriv, -, ht⟩ := h
  refine ⟨nextPriv, ?_⟩
  rw [extendBlocks, Except.ofOption_eq_ok_iff.mp hlast]
  exact (Except.ok.inj ht).symm

theorem blockBefore_append {bs bs' : List Block} {i : ℕ} (hi : i ≤ bs.length) :
    blockBefore (bs ++ bs') i = blockBefore bs i := by
  cases i with
  | zero => rfl
  | succ i => exact List.getElem?_append_left hi

theorem blockBefore_length (bs : List Block) : blockBefore bs bs.length = bs.getLast? := by
  cases bs with
  | nil => rfl
  | cons b bs => exact List.getLast?_eq_getElem?.symm

/-- The appended block is signed in its place, and the blocks before it keep theirs. -/
theorem genuine_extendBlocks {priv rootPub nextPriv : Bytes} {blocks : List Block} {g : Grant}
    (hsigned : ∀ i b, blocks[i]? = some b → ∃ priv, b.signature =
      Sigctx.sign S .capabilityBlock priv
        (blockMsg rootPub i (prevSig (blockBefore blocks i)) b.grant b.nextPub)) :
    Genuine S rootPub (extendBlocks S priv rootPub blocks g nextPriv) := by
  refine ⟨?_, ⟨_, rfl⟩, _, by rw [extendBlocks, List.getLast?_concat]; rfl, rfl⟩
  intro i b hb
  rw [extendBlocks] at hb ⊢
  rcases Nat.lt_trichotomy i blocks.length with hi | hi | hi
  · rw [blockBefore_append hi.le]
    rw [List.getElem?_append_left hi] at hb
    exact hsigned i b hb
  · subst hi
    rw [blockBefore_append le_rfl, blockBefore_length]
    rw [List.getElem?_concat_length] at hb
    cases hb
    exact ⟨priv, rfl⟩
  · rw [List.getElem?_eq_none (by simpa using hi)] at hb
    cases hb

theorem Issued.genuine (h : Issued S rootPriv t earlier) :
    ∀ u ∈ t :: earlier, Genuine S (S.publicKey rootPriv) u := by
  induction h with
  | root h =>
      obtain ⟨nextPriv, rfl⟩ := eq_extendBlocks_of_newCapability h
      intro u hu
      rw [List.mem_singleton.mp hu]
      exact genuine_extendBlocks (by simp)
  | attenuate hissued h ih =>
      obtain ⟨nextPriv, rfl⟩ := eq_extendBlocks_of_attenuate h
      intro u hu
      rcases List.mem_cons.mp hu with rfl | hu
      · exact genuine_extendBlocks (ih _ List.mem_cons_self).signed
      · exact ih u hu

/-- Every earlier token is a prefix of the last one. -/
theorem Issued.isPrefix (h : Issued S rootPriv t earlier) :
    ∀ u ∈ t :: earlier, u.1.blocks <+: t.1.blocks := by
  induction h with
  | root h =>
      intro u hu
      rw [List.mem_singleton.mp hu]
  | attenuate hissued h ih =>
      obtain ⟨nextPriv, rfl⟩ := eq_extendBlocks_of_attenuate h
      intro u hu
      rcases List.mem_cons.mp hu with rfl | hu
      · exact List.prefix_rfl
      · exact (ih u hu).trans (List.prefix_append _ _)

/-- The key that a block but the last names belongs to the holder of an earlier token. -/
theorem Issued.exists_holder (h : Issued S rootPriv t earlier) {i : ℕ} {b : Block}
    (hb : t.1.blocks[i]? = some b) (hi : i + 1 < t.1.blocks.length) :
    ∃ u ∈ earlier, b.nextPub = S.publicKey u.2 := by
  induction h with
  | root h =>
      obtain ⟨nextPriv, rfl⟩ := eq_extendBlocks_of_newCapability h
      simp [extendBlocks] at hi
  | @attenuate _ _ t _ _ hissued h ih =>
      obtain ⟨nextPriv, rfl⟩ := eq_extendBlocks_of_attenuate h
      rw [extendBlocks, List.length_append, List.length_singleton] at hi
      rw [extendBlocks, List.getElem?_append_left (by omega)] at hb
      by_cases hlast : i + 1 < t.1.blocks.length
      · obtain ⟨u, hu, hkey⟩ := ih hb hlast
        exact ⟨u, List.mem_cons_of_mem _ hu, hkey⟩
      · obtain ⟨b', hb', hkey⟩ := (hissued.genuine t List.mem_cons_self).holder
        refine ⟨t, List.mem_cons_self, ?_⟩
        rw [Option.mem_def, List.getLast?_eq_getElem?,
          show t.1.blocks.length - 1 = i by omega, hb] at hb'
        cases hb'
        exact hkey

end

/-! ## The attacker -/

/-- The signatures that are there to be seen: those of the issued tokens, and proofs of possession
by anyone over anything. -/
inductive Observed (S : SignatureScheme) (tokens : List (Capability × Bytes)) : Bytes → Prop where
  | block {u : Capability × Bytes} {b : Block} (hu : u ∈ tokens) (hb : b ∈ u.1.blocks) :
      Observed S tokens b.signature
  | sealSig {u : Capability × Bytes} (hu : u ∈ tokens) : Observed S tokens u.1.sealSig
  | holderProof (priv msg : Bytes) :
      Observed S tokens (Sigctx.sign S .capabilityHolderProof priv msg)

/-- The holder of the last token, with any further keys, but without the root secret and the secrets
of the holders before. -/
structure Adversary (S : SignatureScheme) (rootPriv : Bytes) (t : Capability × Bytes)
    (earlier : List (Capability × Bytes)) where
  keys : Set Bytes
  holder : t.2 ∈ keys
  root : ∀ priv ∈ keys, S.publicKey priv ≠ S.publicKey rootPriv
  others : ∀ u ∈ earlier, ∀ priv ∈ keys, S.publicKey priv ≠ S.publicKey u.2

section

variable {S : SignatureScheme} {rootPriv : Bytes} {t : Capability × Bytes}
  {earlier : List (Capability × Bytes)}

/-- A capability that the attacker can put together, grants and keys of its choice included. -/
structure Adversary.Assembles (A : Adversary S rootPriv t earlier) (c : Capability) : Prop where
  blocks : ∀ b ∈ c.blocks, S.Obtainable A.keys {sig | Observed S (t :: earlier) sig} b.signature
  sealSig : S.Obtainable A.keys {sig | Observed S (t :: earlier) sig} c.sealSig

/-- What the signature of the next block commits to. -/
def Block.content (b : Block) : Bytes × Bytes × Bytes :=
  (b.nextPub, b.signature, grantCanonical b.grant)

/-- A signature that was seen and verifies for a block is that of the block in the same place. -/
theorem content_of_observed (hS : S.Ideal) (hissued : Issued S rootPriv t earlier) {b : Block}
    (hobs : Observed S (t :: earlier) b.signature) {pub rootPub prev : Bytes} {i : ℕ}
    (hverify : Sigctx.verify S .capabilityBlock pub (blockMsg rootPub i prev b.grant b.nextPub)
      b.signature = true) :
    ∃ b₀, t.1.blocks[i]? = some b₀ ∧ b.content = b₀.content := by
  generalize hsig : b.signature = sig at hobs hverify
  cases hobs with
  | @block u b₀ hu hb =>
      obtain ⟨j, hj⟩ := List.mem_iff_getElem?.mp ((hissued.isPrefix u hu).subset hb)
      obtain ⟨priv, hsigned⟩ := (hissued.genuine t List.mem_cons_self).signed j b₀ hj
      rw [hsigned] at hverify
      obtain ⟨-, -, hmsg⟩ := Sigctx.eq_of_verify_sign hS hverify
      obtain ⟨-, rfl, -, hgrant, hnext⟩ := blockMsg_injective hmsg
      exact ⟨b₀, hj, by rw [Block.content, Block.content, hsig, hgrant, hnext]⟩
  -- a seal and a holder proof are signed in contexts of their own
  | @sealSig u hu =>
      obtain ⟨msg, hseal⟩ := (hissued.genuine u hu).sealed
      rw [hseal] at hverify
      exact absurd (Sigctx.eq_of_verify_sign hS hverify).2.1 (by decide)
  | holderProof priv msg => exact absurd (Sigctx.eq_of_verify_sign hS hverify).2.1 (by decide)

/-- The attacker cannot sign in the place of any block of the token. -/
theorem Adversary.ne_signer (A : Adversary S rootPriv t earlier)
    (hissued : Issued S rootPriv t earlier) {i : ℕ} (hi : i < t.1.blocks.length) :
    ∀ priv ∈ A.keys,
      S.publicKey priv ≠ signer (S.publicKey rootPriv) (blockBefore t.1.blocks i) := by
  intro priv hpriv
  cases i with
  | zero => exact A.root priv hpriv
  | succ i =>
      have hb := List.getElem?_eq_getElem (Nat.lt_of_succ_lt hi)
      obtain ⟨u, hu, hkey⟩ := hissued.exists_holder hb hi
      rw [blockBefore, hb, signer, hkey]
      exact A.others u hu priv hpriv

/-- Where an honest holder's turn to sign is, the attacker can only put that holder's block. -/
theorem Adversary.content_of_signer (hS : S.Ideal) (A : Adversary S rootPriv t earlier)
    (hissued : Issued S rootPriv t earlier) {c : Capability} (hc : A.Assembles c) {now : ℤ}
    {g : Grant} (hv : c.Verified S (S.publicKey rootPriv) now g) {i : ℕ}
    (hi : i < t.1.blocks.length) {b : Block} (hb : c.blocks[i]? = some b)
    (hsigner : signer (S.publicKey rootPriv) (blockBefore c.blocks i) =
      signer (S.publicKey rootPriv) (blockBefore t.1.blocks i)) :
    ∃ b₀, t.1.blocks[i]? = some b₀ ∧ b.content = b₀.content := by
  have hsigned := (hv.endorsed i b hb).signed
  have hobs : Observed S (t :: earlier) b.signature := by
    refine (hc.blocks b (List.mem_of_getElem? hb)).mem_given hS (Bool.and_eq_true_iff.mp hsigned).2 ?_
    rw [hsigner]
    exact A.ne_signer hissued hi
  exact content_of_observed hS hissued hobs hsigned

/-- As far as the token goes, a verified capability that the attacker has put together has the
blocks of the token: each block names the honest holder who signs the next one. -/
theorem Adversary.content_eq (hS : S.Ideal) (A : Adversary S rootPriv t earlier)
    (hissued : Issued S rootPriv t earlier) {c : Capability} (hc : A.Assembles c) {now : ℤ}
    {g : Grant} (hv : c.Verified S (S.publicKey rootPriv) now g) {i : ℕ}
    (hi : i < t.1.blocks.length) {b : Block} (hb : c.blocks[i]? = some b) :
    ∃ b₀, t.1.blocks[i]? = some b₀ ∧ b.content = b₀.content := by
  induction i generalizing b with
  | zero => exact A.content_of_signer hS hissued hc hv hi hb rfl
  | succ i ih =>
      obtain ⟨hlen, -⟩ := List.getElem?_eq_some_iff.mp hb
      have hprev := List.getElem?_eq_getElem (Nat.lt_of_succ_lt hlen)
      obtain ⟨b₀, hb₀, hcontent⟩ := ih (Nat.lt_of_succ_lt hi) hprev
      refine A.content_of_signer hS hissued hc hv hi hb ?_
      rw [blockBefore, blockBefore, hprev, hb₀]
      exact (Prod.mk.inj hcontent).1

/-- The attacker cannot cut the token off: it does not hold the key that an earlier block names. -/
theorem Adversary.length_le (hS : S.Ideal) (A : Adversary S rootPriv t earlier)
    (hissued : Issued S rootPriv t earlier) {c : Capability} (hc : A.Assembles c) {now : ℤ}
    {g : Grant} (hv : c.Verified S (S.publicKey rootPriv) now g) {last : Block}
    (hlast : c.blocks.getLast? = some last) {priv : Bytes} (hpriv : priv ∈ A.keys)
    (hkey : S.publicKey priv = last.nextPub) : t.1.blocks.length ≤ c.blocks.length := by
  by_contra hlt
  rw [List.getLast?_eq_getElem?] at hlast
  obtain ⟨hpos, -⟩ := List.getElem?_eq_some_iff.mp hlast
  obtain ⟨b₀, hb₀, hcontent⟩ := A.content_eq hS hissued hc hv (by omega) hlast
  obtain ⟨u, hu, hnext⟩ := hissued.exists_holder hb₀ (by omega)
  refine A.others u hu priv hpriv ?_
  rw [hkey, ← hnext]
  exact (Prod.mk.inj hcontent).1

end

/-- A holder cannot broaden its capability. Let a verified capability be put together by the holder
of an issued token, whose final next-secret it knows. Then its first blocks are those of the token,
in next-key, signature and canonical grant, and its effective grant attenuates a grant of the same
canonical form as the token's. -/
theorem attacker_cannot_broaden (S : SignatureScheme) (hS : S.Ideal) (rootPriv : Bytes)
    (t : Capability × Bytes) (earlier : List (Capability × Bytes))
    (hissued : Issued S rootPriv t earlier) (g : Grant) (hg : ∃ b ∈ t.1.blocks.getLast?, b.grant = g)
    (A : Adversary S rootPriv t earlier) (c : Capability) (hc : A.Assembles c)
    (hholder : ∃ priv ∈ A.keys, ∃ b ∈ c.blocks.getLast?, S.publicKey priv = b.nextPub)
    (now : ℤ) (opts : List VerifyOption) (g' : Grant)
    (hverify : c.verify S (S.publicKey rootPriv) now opts = .ok g') :
    (c.blocks.take t.1.blocks.length).map Block.content = t.1.blocks.map Block.content ∧
    ∃ gs, grantCanonical gs = grantCanonical g ∧ attenuates gs g' = .ok () := by
  have hv := Capability.verified_of_verify hverify
  obtain ⟨priv, hpriv, last, hlast, hkey⟩ := hholder
  have hlen := A.length_le hS hissued hc hv hlast hpriv hkey
  constructor
  · refine List.ext_getElem? fun i => ?_
    rw [List.getElem?_map, List.getElem?_map, List.getElem?_take]
    split
    · next hi =>
        have hb := List.getElem?_eq_getElem (hi.trans_le hlen)
        obtain ⟨b₀, hb₀, hcontent⟩ := A.content_eq hS hissued hc hv hi hb
        rw [hb, hb₀, Option.map_some, Option.map_some, hcontent]
    · next hi => rw [List.getElem?_eq_none (not_lt.mp hi)]
  · obtain ⟨b₀, hb₀, rfl⟩ := hg
    rw [Option.mem_def, List.getLast?_eq_getElem?] at hb₀
    obtain ⟨hpos, -⟩ := List.getElem?_eq_some_iff.mp hb₀
    have hb := List.getElem?_eq_getElem (hpos.trans_le hlen)
    obtain ⟨b₁, hb₁, hcontent⟩ := A.content_eq hS hissued hc hv hpos hb
    rw [hb₀] at hb₁
    cases hb₁
    refine ⟨_, (Prod.mk.inj (Prod.mk.inj hcontent).2).2, ?_⟩
    exact attenuates_eq_ok_iff.mpr (hv.grant_le _ (List.mem_of_getElem? hb))

/-- The holder of a token of two blocks attenuates it once more. -/
theorem attacker_cannot_broaden_three_blocks :
    let key := fun (n : UInt8) => List.replicate 64 n
    let root := SignatureScheme.free.publicKey (key 1)
    let grant := fun (tools : List String) (notAfter : ℤ) =>
      (⟨tools.map Bytes.ascii, [], notAfter, none⟩ : Grant)
    let t₀ := extendBlocks .free (key 1) root [] (grant [] 0) (key 2)
    let t₁ := extendBlocks .free (key 2) root t₀.1.blocks (grant ["read", "write"] 9) (key 3)
    let c := (extendBlocks .free (key 3) root t₁.1.blocks (grant ["read"] 9) (key 4)).1
    c.verify .free root 8 [] = .ok (grant ["read"] 9) ∧
      (c.blocks.take 2).map Block.content = t₁.1.blocks.map Block.content := by
  intro key root grant t₀ t₁ c
  have hroot : newCapability .free (key 1) (grant [] 0) (some (key 2)) = .ok t₀ := rfl
  have hatt : t₀.1.attenuate .free root t₀.2 (grant ["read", "write"] 9) (some (key 3)) = .ok t₁ := rfl
  let A : Adversary .free (key 1) t₁ [t₀] :=
    { keys := {key 3, key 4}
      holder := .inl rfl
      root := by
        rintro priv (rfl | rfl) <;> decide +kernel
      others := by
        rintro u hu priv (rfl | rfl) <;> rw [List.mem_singleton.mp hu] <;> decide +kernel }
  have hassembles : A.Assembles c := by
    refine ⟨fun b hb => ?_, .own (.inr rfl) _⟩
    rcases List.mem_append.mp hb with hb | hb
    · exact .given (.block List.mem_cons_self hb)
    · rw [List.mem_singleton.mp hb]
      exact .own (.inl rfl) _
  have hverify : c.verify .free root 8 [] = .ok (grant ["read"] 9) := by decide +kernel
  refine ⟨hverify, ?_⟩
  refine (attacker_cannot_broaden .free SignatureScheme.ideal_free (key 1) t₁ [t₀]
    (.attenuate (.root hroot) hatt) _
    ⟨_, rfl, rfl⟩ A c hassembles ⟨key 4, .inr rfl, _, rfl, rfl⟩ 8 [] _ hverify).1

end Sanad.Delegation
