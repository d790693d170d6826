import Mathlib.Data.List.Nodup
import Sanad.Common.Signature

/-! # Signature contexts

`internal/sigctx`: every signature commits to a label that names what is being signed. The signing
input is `uint64be(len(ctx)) || ctx || msg`; the length fixes where the label ends, so the input
determines label and message (`message_injective`).
-/

namespace Sanad.Sigctx

/-- The registered contexts, one for each distinct thing a key signs. -/
inductive Context where
  | instanceProof
  | workloadCredential
  | attestationQuote
  | bootstrapEvidence
  | delegationHop
  | capabilityBlock
  | capabilitySeal
  | capabilityHolderProof
  | exchangeToken
  | auditCheckpoint
  | auditWitness
  | vcProof
  | vcHolderProof
  deriving DecidableEq, Repr

/-- The label of a context. -/
def Context.label : Context → Bytes
  | .instanceProof => Bytes.ascii "sanad/instance-proof/v2"
  | .workloadCredential => Bytes.ascii "sanad/workload-credential/v1"
  | .attestationQuote => Bytes.ascii "sanad/attestation-quote/v1"
  | .bootstrapEvidence => Bytes.ascii "sanad/bootstrap-evidence/v1"
  | .delegationHop => Bytes.ascii "sanad/delegation-hop/v1"
  | .capabilityBlock => Bytes.ascii "sanad/capability-block/v2"
  | .capabilitySeal => Bytes.ascii "sanad/capability-seal/v1"
  | .capabilityHolderProof => Bytes.ascii "sanad/capability-holder-proof/v2"
  | .exchangeToken => Bytes.ascii "sanad/exchange-token/v1"
  | .auditCheckpoint => Bytes.ascii "sanad/audit-checkpoint/v1"
  | .auditWitness => Bytes.ascii "sanad/audit-witness/v1"
  | .vcProof => Bytes.ascii "sanad/vc-proof/v1"
  | .vcHolderProof => Bytes.ascii "sanad/vc-holder-proof/v1"

/-- `All`: every registered context. -/
def all : List Context :=
  [.instanceProof, .workloadCredential, .attestationQuote, .bootstrapEvidence, .delegationHop,
    .capabilityBlock, .capabilitySeal, .capabilityHolderProof, .exchangeToken, .auditCheckpoint,
    .auditWitness, .vcProof, .vcHolderProof]

/-- `binary.BigEndian.PutUint64`. -/
def uint64be (n : ℕ) : Bytes :=
  [(n >>> 56).toUInt8, (n >>> 48).toUInt8, (n >>> 40).toUInt8, (n >>> 32).toUInt8,
    (n >>> 24).toUInt8, (n >>> 16).toUInt8, (n >>> 8).toUInt8, n.toUInt8]

/-- `Message`: the domain-separated signing input for `msg` under `ctx`. -/
def message (ctx : Context) (msg : Bytes) : Bytes :=
  uint64be ctx.label.length ++ (ctx.label ++ msg)

/-- `ed25519.PublicKeySize` -/
def publicKeySize : ℕ := 32

/-- `ed25519.PrivateKeySize` -/
def privateKeySize : ℕ := 64

variable (S : SignatureScheme)

/-- `Sign` -/
def sign (ctx : Context) (priv msg : Bytes) : Bytes := S.sign priv (message ctx msg)

/-- `Verify`: a public key of the wrong size is rejected. -/
def verify (ctx : Context) (pub msg sig : Bytes) : Bool :=
  pub.length = publicKeySize && S.verify pub (message ctx msg) sig

theorem mem_all (c : Context) : c ∈ all := by
  cases c <;> decide

/-- The labels are pairwise distinct, and short. -/
theorem labels_nodup : (all.map Context.label).Nodup := by decide +kernel

theorem length_label_lt (c : Context) : c.label.length < 256 := by
  have hall : ∀ d ∈ all, d.label.length < 256 := by decide +kernel
  exact hall c (mem_all c)

theorem label_injective {c c' : Context} (h : c.label = c'.label) : c = c' :=
  List.inj_on_of_nodup_map labels_nodup (mem_all c) (mem_all c') h

/-- The signing input determines the context and the message. -/
theorem message_injective {c c' : Context} {msg msg' : Bytes} (h : message c msg = message c' msg') :
    c = c' ∧ msg = msg' := by
  obtain ⟨hlen, hrest⟩ := List.append_inj h rfl
  -- no label is longer than 255 bytes, so the last byte of the length tells the lengths apart
  have hlast : c.label.length.toUInt8 = c'.label.length.toUInt8 := by
    simp only [uint64be, List.cons.injEq] at hlen
    exact hlen.2.2.2.2.2.2.2.1
  have hlength : c.label.length = c'.label.length := by
    have := congrArg UInt8.toNat hlast
    simp only [Nat.toUInt8_eq, UInt8.toNat_ofNat'] at this
    rwa [Nat.mod_eq_of_lt (length_label_lt c), Nat.mod_eq_of_lt (length_label_lt c')] at this
  obtain ⟨hlabel, hmsg⟩ := List.append_inj hrest hlength
  exact ⟨label_injective hlabel, hmsg⟩

/-- A signature of a correct scheme verifies. -/
theorem verify_sign {S : SignatureScheme} {priv : Bytes}
    (hsize : (S.publicKey priv).length = publicKeySize)
    (hsign : ∀ msg, S.verify (S.publicKey priv) msg (S.sign priv msg) = true) (ctx : Context)
    (msg : Bytes) : verify S ctx (S.publicKey priv) msg (sign S ctx priv msg) = true := by
  rw [verify, Bool.and_eq_true, decide_eq_true_eq]
  exact ⟨hsize, hsign _⟩

/-- A signature verifies for its own key, context and message only. -/
theorem eq_of_verify_sign {S : SignatureScheme} (hS : S.Ideal) {ctx ctx' : Context}
    {pub priv msg msg' : Bytes} (h : verify S ctx pub msg (sign S ctx' priv msg') = true) :
    S.publicKey priv = pub ∧ ctx' = ctx ∧ msg' = msg := by
  rw [verify, Bool.and_eq_true] at h
  obtain ⟨signer, hsigner, hsign⟩ := (hS.verify_iff _ _ _).mp h.2
  obtain ⟨hkey, hmessage⟩ := hS.sign_injective hsign
  obtain ⟨hctx, hmsg⟩ := message_injective hmessage
  exact ⟨hkey.symm.trans hsigner, hctx.symm, hmsg.symm⟩

/-- A string verifies as a signature under one key, in one context and for one message. -/
theorem eq_of_verify_verify {S : SignatureScheme} (hS : S.Ideal) {ctx ctx' : Context}
    {pub pub' msg msg' sig : Bytes} (h : verify S ctx pub msg sig = true)
    (h' : verify S ctx' pub' msg' sig = true) : pub = pub' ∧ ctx = ctx' ∧ msg = msg' := by
  rw [verify, Bool.and_eq_true] at h
  obtain ⟨signer, rfl, hsign⟩ := (hS.verify_iff _ _ _).mp h.2
  have hsigned : verify S ctx' pub' msg' (sign S ctx signer msg) = true := by
    rw [sign, hsign]
    exact h'
  exact eq_of_verify_sign hS hsigned

end Sanad.Sigctx
