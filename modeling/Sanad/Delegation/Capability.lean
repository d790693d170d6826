import Sanad.Delegation.Chain

/-! # Capabilities

`delegation/capability.go`: a delegation token that verifies against one root key and that its
holder narrows offline. Each block names the key that signs the next one; the root key signs the
first. The seal is a signature by the last of these keys over the number of blocks.
-/

namespace Sanad.Delegation

/-- `Block`: one segment of a capability. -/
structure Block where
  grant : Grant
  nextPub : Bytes
  signature : Bytes
  deriving DecidableEq, Repr

/-- `Capability` -/
structure Capability where
  blocks : List Block
  sealSig : Bytes
  deriving DecidableEq, Repr

/-- The errors of issuing, attenuating and verifying a capability. -/
inductive CapabilityError where
  /-- `delegation: invalid root key` -/
  | invalidRootKey
  /-- The error of `ed25519.GenerateKey`. -/
  | keyGeneration
  /-- `delegation: empty capability` -/
  | emptyCapability
  /-- `delegation: too deep: attenuating would make %d blocks, the maximum is %d` -/
  | attenuatesTooDeep (blocks maximum : ℕ)
  /-- `delegation: holder secret does not match the capability` -/
  | wrongHolderSecret
  /-- `delegation: attenuation: %w` -/
  | attenuation (cause : AttenuationError)
  /-- `delegation: too deep: capability has %d blocks, the maximum is %d` -/
  | tooDeep (blocks maximum : ℕ)
  /-- `delegation: block %d has an invalid next key` -/
  | invalidNextKey (block : ℕ)
  /-- `delegation: capability block %d has an invalid signature` -/
  | invalidSignature (block : ℕ)
  /-- `delegation: capability block %d widens scope: %w` -/
  | widensScope (block : ℕ) (cause : AttenuationError)
  /-- `delegation: capability block %d has expired` -/
  | expired (block : ℕ)
  /-- `delegation: capability seal is missing or invalid (a truncated capability cannot be
  re-sealed)` -/
  | invalidSeal
  deriving DecidableEq, Repr

/-! ## The signing inputs -/

/-- The JSON of a grant in a signing input. -/
def grantJson (g : Grant) : Json :=
  .ofFields ([("tools", stringsJson g.tools), ("servers", stringsJson g.servers),
    ("not_after", .ofInt (unixOrZero g.notAfter))] ++ budgetFields g.budget)

/-- `grantCanonical` -/
def grantCanonical (g : Grant) : Bytes := Json.render (grantJson g)

/-- `blockMsg`: the signing input for one block. The canonical grant is a `json.RawMessage`, so it
stands in the text as it is. -/
def blockMsg (rootPub : Bytes) (index : ℕ) (prevSig : Bytes) (g : Grant) (nextPub : Bytes) : Bytes :=
  Json.render (.ofFields (
    [("root", .ofBytes rootPub), ("i", .ofInt index)] ++ bytesFields "prev" prevSig ++
    [("grant", grantJson g), ("next", .ofBytes nextPub)]))

/-- `sealMsg`: the signing input for the seal. -/
def sealMsg (rootPub : Bytes) (blocks : ℕ) (lastSig : Bytes) : Bytes :=
  Json.render (.ofFields
    [("root", .ofBytes rootPub), ("n", .ofInt blocks), ("last", .ofBytes lastSig)])

/-- The key that signs after a block: the root key, if there is none. -/
def signer (rootPub : Bytes) : Option Block → Bytes
  | none => rootPub
  | some b => b.nextPub

/-- The signature of the block before, nil if there is none. -/
def prevSig : Option Block → Bytes
  | none => []
  | some b => b.signature

/-! ## Issuing, attenuating and verifying -/

section

variable (S : SignatureScheme)

/-- `seal`: signs the capability's length with the final next-secret. -/
def sealBlocks (nextPriv rootPub : Bytes) (blocks : List Block) : Bytes :=
  Sigctx.sign S .capabilitySeal nextPriv (sealMsg rootPub blocks.length (prevSig blocks.getLast?))

/-- `NewCapability`: a root capability and its holder secret. The last argument is the private key
that `ed25519.GenerateKey` returns, none if it fails. -/
def newCapability (rootPriv : Bytes) (g : Grant) (generated : Option Bytes) :
    Except CapabilityError (Capability × Bytes) := do
  Except.require (rootPriv.length = Sigctx.privateKeySize) .invalidRootKey
  let rootPub := S.publicKey rootPriv
  let nextPriv ← Except.ofOption generated .keyGeneration
  let nextPub := S.publicKey nextPriv
  let sig := Sigctx.sign S .capabilityBlock rootPriv (blockMsg rootPub 0 [] g nextPub)
  let blocks : List Block := [⟨g, nextPub, sig⟩]
  .ok (⟨blocks, sealBlocks S nextPriv rootPub blocks⟩, nextPriv)

/-- `Capability.Attenuate`: the capability with a narrowed block appended, and its holder secret. -/
def Capability.attenuate (c : Capability) (rootPub holderSecret : Bytes) (g : Grant)
    (generated : Option Bytes) : Except CapabilityError (Capability × Bytes) := do
  let last ← Except.ofOption c.blocks.getLast? .emptyCapability
  Except.require (c.blocks.length + 1 ≤ maxDepth) (.attenuatesTooDeep (c.blocks.length + 1) maxDepth)
  Except.require (S.publicKey holderSecret = last.nextPub) .wrongHolderSecret
  (attenuates last.grant g).mapError .attenuation
  let nextPriv ← Except.ofOption generated .keyGeneration
  let nextPub := S.publicKey nextPriv
  let sig := Sigctx.sign S .capabilityBlock holderSecret
    (blockMsg rootPub c.blocks.length last.signature g nextPub)
  let blocks : List Block := c.blocks ++ [⟨g, nextPub, sig⟩]
  .ok (⟨blocks, sealBlocks S nextPriv rootPub blocks⟩, nextPriv)

variable (rootPub : Bytes) (now : ℤ)

/-- The attenuation check in the loop of `Verify`, which the first block does not need. -/
def checkNarrows (i : ℕ) (prev : Option Block) (b : Block) : Except CapabilityError Unit :=
  match prev with
  | none => .ok ()
  | some p => (attenuates p.grant b.grant).mapError (.widensScope i)

/-- The body of the loop of `Verify`, for the block with index `i` after the block `prev`. -/
def checkBlock (i : ℕ) (prev : Option Block) (b : Block) : Except CapabilityError Unit := do
  Except.require (b.nextPub.length = Sigctx.publicKeySize) (.invalidNextKey i)
  Except.require
    (Sigctx.verify S .capabilityBlock (signer rootPub prev)
      (blockMsg rootPub i (prevSig prev) b.grant b.nextPub) b.signature = true)
    (.invalidSignature i)
  checkNarrows i prev b
  Except.require (b.grant.notAfter = 0 ∨ now < b.grant.notAfter) (.expired i)

/-- The loop of `Verify`. -/
def checkBlocks : ℕ → Option Block → List Block → Except CapabilityError Unit
  | _, _, [] => .ok ()
  | i, prev, b :: bs => do
    checkBlock S rootPub now i prev b
    checkBlocks (i + 1) (some b) bs

/-- `Capability.Verify`: the effective grant, which is that of the last block. -/
def Capability.verify (c : Capability) (opts : List VerifyOption) : Except CapabilityError Grant := do
  let last ← Except.ofOption c.blocks.getLast? .emptyCapability
  let limit := newVerifyOptions opts
  Except.require (c.blocks.length ≤ limit) (.tooDeep c.blocks.length limit.toNat)
  checkBlocks S rootPub now 0 none c.blocks
  Except.require
    (Sigctx.verify S .capabilitySeal last.nextPub (sealMsg rootPub c.blocks.length last.signature)
      c.sealSig = true)
    .invalidSeal
  .ok last.grant

end

/-! ## What the signing inputs determine -/

theorem bytesFields_injective {name : String} {b b' : Bytes}
    (h : Json.ofFields (bytesFields name b) = .ofFields (bytesFields name b')) : b = b' := by
  rw [bytesFields, bytesFields] at h
  split at h <;> split at h
  · next hb hb' => rw [List.length_eq_zero_iff.mp hb, List.length_eq_zero_iff.mp hb']
  · cases h
  · cases h
  · exact Json.ofBytes_injective (Prod.mk.inj (List.cons.inj (Json.object.inj h)).1).2

/-- A block's signing input fixes its place and its content. -/
theorem blockMsg_injective {rootPub rootPub' : Bytes} {i i' : ℕ} {prev prev' : Bytes} {g g' : Grant}
    {next next' : Bytes} (h : blockMsg rootPub i prev g next = blockMsg rootPub' i' prev' g' next') :
    rootPub = rootPub' ∧ i = i' ∧ prev = prev' ∧ grantCanonical g = grantCanonical g' ∧
      next = next' := by
  have hfields := Json.object.inj (Json.render_injective h)
  simp only [List.map_append, List.map_cons, List.map_nil, List.cons_append, List.nil_append,
    List.cons.injEq, Prod.mk.injEq, true_and] at hfields
  obtain ⟨hroot, hindex, hrest⟩ := hfields
  -- the two members after the optional one are always there
  obtain ⟨hprev, hlast⟩ := List.append_inj' hrest rfl
  simp only [List.cons.injEq, Prod.mk.injEq, true_and, and_true] at hlast
  obtain ⟨hgrant, hnext⟩ := hlast
  refine ⟨Json.ofBytes_injective hroot, Int.ofNat.inj (Json.ofInt_injective hindex), ?_, ?_,
    Json.ofBytes_injective hnext⟩
  · exact bytesFields_injective (congrArg Json.object hprev)
  · exact congrArg Json.render hgrant

/-! ## What verification establishes -/

/-- The block before the block with index `i`. -/
def blockBefore (blocks : List Block) : ℕ → Option Block
  | 0 => none
  | i + 1 => blocks[i]?

section

variable {S : SignatureScheme} {rootPub : Bytes} {now : ℤ}

/-- A block as the loop of `Verify` accepts it. -/
structure Endorsed (S : SignatureScheme) (rootPub : Bytes) (now : ℤ) (i : ℕ) (prev : Option Block)
    (b : Block) : Prop where
  signed : Sigctx.verify S .capabilityBlock (signer rootPub prev)
    (blockMsg rootPub i (prevSig prev) b.grant b.nextPub) b.signature = true
  attenuation : ∀ p ∈ prev, b.grant ≤ p.grant
  unexpired : b.grant.notAfter = 0 ∨ now < b.grant.notAfter

theorem endorsed_of_checkBlock {i : ℕ} {prev : Option Block} {b : Block}
    (h : checkBlock S rootPub now i prev b = .ok ()) : Endorsed S rootPub now i prev b := by
  rw [checkBlock, Except.check_bind_eq_ok_iff, Except.check_bind_eq_ok_iff,
    Except.check_bind_eq_ok_iff, Except.require_eq_ok_iff, Except.require_eq_ok_iff] at h
  obtain ⟨-, hsigned, hatt, hexp⟩ := h
  refine ⟨hsigned, ?_, Except.require_eq_ok_iff.mp hexp⟩
  rintro p ⟨⟩
  exact attenuates_eq_ok_iff.mp (Except.mapError_eq_ok_iff.mp hatt)

/-- The loop of `Verify` accepts every block in its place: the first after `prev`, with index `i`.
-/
theorem endorsed_of_checkBlocks {i : ℕ} {prev : Option Block} {bs : List Block}
    (h : checkBlocks S rootPub now i prev bs = .ok ()) {k : ℕ} {b : Block} (hb : bs[k]? = some b) :
    Endorsed S rootPub now (i + k) (if k = 0 then prev else blockBefore bs k) b := by
  induction bs generalizing i prev k with
  | nil => cases hb
  | cons a bs ih =>
      rw [checkBlocks, Except.check_bind_eq_ok_iff] at h
      obtain ⟨ha, hrest⟩ := h
      cases k with
      | zero =>
          cases hb
          exact endorsed_of_checkBlock ha
      | succ k =>
          have hk := ih hrest hb
          rw [show i + (k + 1) = i + 1 + k by omega, if_neg (by omega)]
          cases k with
          | zero => exact hk
          | succ k => exact hk

/-- A verified capability. -/
structure Capability.Verified (S : SignatureScheme) (rootPub : Bytes) (now : ℤ) (c : Capability)
    (g : Grant) : Prop where
  depth : c.blocks.length ≤ maxDepth
  endorsed : ∀ i b, c.blocks[i]? = some b → Endorsed S rootPub now i (blockBefore c.blocks i) b
  last : ∃ b ∈ c.blocks.getLast?, b.grant = g ∧ Sigctx.verify S .capabilitySeal b.nextPub
    (sealMsg rootPub c.blocks.length b.signature) c.sealSig = true

theorem Capability.verified_of_verify {c : Capability} {opts : List VerifyOption} {g : Grant}
    (h : c.verify S rootPub now opts = .ok g) : c.Verified S rootPub now g := by
  rw [Capability.verify, Except.bind_eq_ok_iff] at h
  obtain ⟨last, hlast, h⟩ := h
  rw [Except.check_bind_eq_ok_iff, Except.check_bind_eq_ok_iff, Except.check_bind_eq_ok_iff,
    Except.require_eq_ok_iff, Except.require_eq_ok_iff] at h
  obtain ⟨hdepth, hblocks, hseal, hg⟩ := h
  have hlimit := newVerifyOptions_le opts
  refine ⟨by omega, ?_, last, Except.ofOption_eq_ok_iff.mp hlast, Except.ok.inj hg, hseal⟩
  intro i b hb
  have hi := endorsed_of_checkBlocks hblocks hb
  rw [Nat.zero_add] at hi
  cases i with
  | zero => exact hi
  | succ i => exact hi

/-- No later block of a verified capability confers more than an earlier one. -/
theorem Capability.Verified.grant_le {c : Capability} {g : Grant} (h : c.Verified S rootPub now g) :
    ∀ b ∈ c.blocks, g ≤ b.grant := by
  have hchain : c.blocks.IsChain fun a b => b.grant ≤ a.grant := by
    rw [List.isChain_iff_getElem]
    intro k hk
    have hnext := h.endorsed (k + 1) _ (List.getElem?_eq_getElem hk)
    exact hnext.attenuation _ (List.getElem?_eq_getElem (by omega))
  obtain ⟨last, hlast, rfl, -⟩ := h.last
  exact last_le_of_isChain hchain hlast

end

end Sanad.Delegation
