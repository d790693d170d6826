import Sanad.Audit.Chain
import Sanad.Audit.Inclusion
import Sanad.Audit.Witness
import Sanad.Common.Transition

/-! # The transparency log

`audit/transparency.go`: the hash chain with a Merkle tree over the hashes of its entries. Every reader
takes a snapshot of its own. An operator who wants a checkpoint co-signed takes the checkpoint and the
consistency proof in two calls, and so does a client who wants to see an entry in a checkpoint. What is
appended between the two calls is in the proof and not in the checkpoint: then an honest log is refused
with the error for a fork.
-/

namespace Sanad.Audit

/-! ## The log -/

/-- The errors of the transparency log. -/
inductive TransparencyError where
  /-- `audit: invalid checkpoint signing key` -/
  | invalidSigningKey
  /-- `audit: index out of range` -/
  | indexOutOfRange
  /-- What the Merkle tree returns. -/
  | audit (e : AuditError)
  deriving DecidableEq, Repr

/-- `TransparencyLog`: leaf i is the hash of entry i. -/
structure TransparencyLog where
  chain : HashChainLog
  signer : Bytes
  kid : Bytes
  leaves : List Bytes

/-- `NewTransparencyLog` -/
def TransparencyLog.new (signer kid : Bytes) : Except TransparencyError TransparencyLog := do
  Except.require (signer.length = Sigctx.privateKeySize) .invalidSigningKey
  .ok ⟨.new, signer, kid, []⟩

section

variable (S : SignatureScheme) (H : Hash 32)

/-- The locked part of `Append`. -/
def TransparencyLog.append (l : TransparencyLog) (e : Entry) : TransparencyLog :=
  let (stored, chain) := l.chain.commit H e
  { l with chain := chain, leaves := l.leaves ++ [stored.hash] }

/-- `Checkpoint` -/
def TransparencyLog.checkpoint (l : TransparencyLog) : SignedCheckpoint :=
  let cp : SignedCheckpoint :=
    { size := l.leaves.length, root := root H l.leaves, keyID := l.kid, signature := [] }
  { cp with signature := Sigctx.sign S .auditCheckpoint l.signer (checkpointMsg cp) }

/-- `TransparencyLog.InclusionProof`: the leaf and its audit path. -/
def TransparencyLog.inclusionProof (l : TransparencyLog) (index : ℤ) :
    Except TransparencyError (Bytes × List Bytes) := do
  Except.require (¬(index < 0 ∨ index ≥ l.leaves.length)) .indexOutOfRange
  let leaf ← Except.ofOption l.leaves[index.toNat]? .indexOutOfRange
  let proof ← (Audit.inclusionProof H l.leaves index).mapError .audit
  .ok (leaf, proof)

/-- `TransparencyLog.ConsistencyProof` -/
def TransparencyLog.consistencyProof (l : TransparencyLog) (oldSize : ℤ) :
    Except AuditError (List Bytes) := Audit.consistencyProof H l.leaves oldSize

end

/-! ## Interleavings -/

/-- Where the operator stands. -/
inductive Operator where
  | idle
  /-- It has taken a checkpoint, for a witness that last co-signed the size. -/
  | holding (lastSize : ℤ) (cp : SignedCheckpoint)
  | proved (cp : SignedCheckpoint) (consistency : List Bytes)

/-- What the operator and the clients get. -/
inductive Outcome where
  | cosigned (sig : WitnessSignature)
  | refused (e : WitnessError)
  | noConsistencyProof (e : AuditError)
  /-- The result of `VerifyInclusion`. -/
  | inclusion (b : Bool)
  | noInclusionProof (e : TransparencyError)

/-- The witness has co-signed, or the entry is in the checkpoint. -/
def Outcome.good : Outcome → Bool
  | .cosigned _ => true
  | .inclusion b => b
  | _ => false

/-- The error of the witness, if it has refused. -/
def Outcome.refusal : Outcome → Option WitnessError
  | .refused e => some e
  | _ => none

/-- A log, its witness and the operator between them. -/
structure Watched where
  log : TransparencyLog
  witness : Witness
  operator : Operator
  /-- The checkpoints that have been taken. -/
  checkpoints : List SignedCheckpoint
  outcomes : List Outcome

def Watched.new (log : TransparencyLog) (witness : Witness) : Watched := ⟨log, witness, .idle, [], []⟩

inductive WatchEvent where
  | append (e : Entry)
  /-- The operator takes a checkpoint. -/
  | checkpoint
  /-- The operator takes a consistency proof, from the size that the witness last co-signed. -/
  | prove
  /-- The operator calls the witness. -/
  | submit
  /-- A client takes a checkpoint. -/
  | observe
  /-- A client takes an inclusion proof for an index in the j-th checkpoint, and verifies it. -/
  | inclusion (j index : ℕ)

section

variable (S : SignatureScheme) (H : Hash 32)

/-- What a client who has the checkpoint sees of an index. -/
def TransparencyLog.checkInclusion (l : TransparencyLog) (cp : SignedCheckpoint) (index : ℕ) :
    Outcome :=
  match l.inclusionProof H index with
  | .error e => .noInclusionProof e
  | .ok (leaf, proof) => .inclusion (verifyInclusion H leaf index cp.size proof cp.root)

/-- The effect of an event, none if it is not the operator's turn or there is no such checkpoint or
index. -/
def watchStep (s : Watched) : WatchEvent → Option Watched
  | .append e => some { s with log := s.log.append H e }
  | .checkpoint =>
    match s.operator with
    | .idle =>
      some { s with operator := .holding s.witness.lastSize (s.log.checkpoint S H) }
    | _ => none
  | .prove =>
    match s.operator with
    | .holding lastSize cp =>
      match s.log.consistencyProof H lastSize with
      | .ok proof => some { s with operator := .proved cp proof }
      | .error e => some { s with operator := .idle, outcomes := .noConsistencyProof e :: s.outcomes }
    | _ => none
  | .submit =>
    match s.operator with
    | .proved cp proof =>
      match s.witness.witness S H ⟨cp, proof⟩ with
      | (.ok sig, w) =>
        some { s with witness := w, operator := .idle, outcomes := .cosigned sig :: s.outcomes }
      | (.error e, w) =>
        some { s with witness := w, operator := .idle, outcomes := .refused e :: s.outcomes }
    | _ => none
  | .observe => some { s with checkpoints := s.checkpoints ++ [s.log.checkpoint S H] }
  | .inclusion j index =>
    match s.checkpoints[j]? with
    | some cp =>
      if index < cp.size then
        some { s with outcomes := s.log.checkInclusion H cp index :: s.outcomes }
      else none
    | none => none

end

/-- Nothing is appended while the operator holds a checkpoint for a witness that has co-signed before,
and a client takes a proof only as long as its checkpoint is the state of the log. -/
def undisturbed (s : Watched) : WatchEvent → Bool
  | .append _ =>
    match s.operator with
    | .holding lastSize _ => lastSize = 0
    | _ => true
  | .inclusion j _ => s.checkpoints[j]?.all fun cp => cp.size = (s.log.leaves.length : ℤ)
  | _ => true

/-! ## What an honest log keeps -/

section

variable {S : SignatureScheme} {H : Hash 32} {s s' : Watched}

/-- A size and a root of an earlier state of the log. -/
def Earlier (H : Hash 32) (leaves : List Bytes) (size : ℤ) (r : Bytes) : Prop :=
  ∃ m ≤ leaves.length, size = m ∧ r = root H (leaves.take m)

theorem earlier_self (leaves : List Bytes) :
    Earlier H leaves leaves.length (root H leaves) :=
  ⟨leaves.length, le_rfl, rfl, by rw [List.take_length]⟩

theorem Earlier.append {leaves : List Bytes} {size : ℤ} {r : Bytes} (h : Earlier H leaves size r)
    (leaf : Bytes) : Earlier H (leaves ++ [leaf]) size r := by
  obtain ⟨m, hm, hsize, hroot⟩ := h
  refine ⟨m, by rw [List.length_append]; omega, hsize, ?_⟩
  rw [List.take_append_of_le_length hm, hroot]

/-- A proof from an earlier state to the present one verifies. -/
theorem Earlier.consistencyProof {leaves : List Bytes} {size : ℤ} {r : Bytes}
    (h : Earlier H leaves size r) (hpos : 0 < size) :
    ∃ proof, Audit.consistencyProof H leaves size = .ok proof ∧
      verifyConsistency H size leaves.length proof r (root H leaves) = true := by
  obtain ⟨m, hm, rfl, rfl⟩ := h
  rw [Audit.consistencyProof, if_neg (by omega)]
  rcases hm.eq_or_lt with rfl | hlt
  · refine ⟨[], by rw [if_pos (.inr rfl)], ?_⟩
    rw [verifyConsistency, if_neg (by omega), if_pos rfl, List.take_length]
    simp
  · exact ⟨subproof H m leaves true, by rw [if_neg (by omega), Int.toNat_natCast],
      verifyConsistency_subproof leaves (by omega) hlt⟩

/-- What the operator holds will be co-signed. -/
def Operator.Fine (S : SignatureScheme) (H : Hash 32) (leaves : List Bytes) (w : Witness) :
    Operator → Prop
  | .idle => True
  | .holding lastSize cp => lastSize = w.lastSize ∧ verifyCheckpoint S w.operatorPub cp = true ∧
      Earlier H leaves cp.size cp.root ∧ (0 < lastSize → cp.size = leaves.length)
  | .proved cp proof => verifyCheckpoint S w.operatorPub cp = true ∧
      Earlier H leaves cp.size cp.root ∧
      (0 < w.lastSize → verifyConsistency H w.lastSize cp.size proof w.lastRoot cp.root = true)

structure Honest (S : SignatureScheme) (H : Hash 32) (s : Watched) : Prop where
  signs : ∀ msg, Sigctx.verify S .auditCheckpoint s.witness.operatorPub msg
    (Sigctx.sign S .auditCheckpoint s.log.signer msg) = true
  /-- The witness has not co-signed anything, or an earlier state of the log. -/
  last : s.witness.lastSize = 0 ∨ Earlier H s.log.leaves s.witness.lastSize s.witness.lastRoot
  operator : s.operator.Fine S H s.log.leaves s.witness
  checkpoints : ∀ cp ∈ s.checkpoints, Earlier H s.log.leaves cp.size cp.root
  outcomes : ∀ o ∈ s.outcomes, o.good = true

theorem honest_new {log : TransparencyLog} {w : Witness}
    (hsigns : ∀ msg, Sigctx.verify S .auditCheckpoint w.operatorPub msg
      (Sigctx.sign S .auditCheckpoint log.signer msg) = true)
    (hlast : w.lastSize = 0) : Honest S H (.new log w) :=
  ⟨hsigns, .inl hlast, trivial, by simp [Watched.new], by simp [Watched.new]⟩

theorem Honest.append (hs : Honest S H s) (e : Entry)
    (hquiet : undisturbed s (.append e) = true) :
    Honest S H { s with log := s.log.append H e } where
  signs := hs.signs
  last := hs.last.imp_right fun h => h.append _
  operator := by
    have hfine := hs.operator
    cases hop : s.operator with
    | idle => trivial
    | holding lastSize cp =>
        rw [hop] at hfine
        simp only [undisturbed, hop, decide_eq_true_eq] at hquiet
        obtain ⟨hlast, hsigned, hearlier, -⟩ := hfine
        exact ⟨hlast, hsigned, hearlier.append _, fun hpos => by omega⟩
    | proved cp proof =>
        rw [hop] at hfine
        exact ⟨hfine.1, hfine.2.1.append _, hfine.2.2⟩
  checkpoints cp hcp := (hs.checkpoints cp hcp).append _
  outcomes := hs.outcomes

theorem verifyCheckpoint_checkpoint {l : TransparencyLog} {pub : Bytes}
    (hsigns : ∀ msg, Sigctx.verify S .auditCheckpoint pub msg
      (Sigctx.sign S .auditCheckpoint l.signer msg) = true) :
    verifyCheckpoint S pub (l.checkpoint S H) = true := hsigns _

theorem Honest.checkpoint (hs : Honest S H s) :
    Honest S H { s with operator := .holding s.witness.lastSize (s.log.checkpoint S H) } :=
  { hs with
    operator :=
      ⟨rfl, verifyCheckpoint_checkpoint hs.signs, earlier_self s.log.leaves, fun _ => rfl⟩ }

/-- The proof is for the checkpoint: nothing has been appended since. -/
theorem Honest.prove (hs : Honest S H s) {lastSize : ℤ} {cp : SignedCheckpoint}
    (hop : s.operator = .holding lastSize cp) :
    ∃ proof, s.log.consistencyProof H lastSize = .ok proof ∧
      Honest S H { s with operator := .proved cp proof } := by
  have hfine := hs.operator
  rw [hop] at hfine
  obtain ⟨rfl, hsigned, hearlier, hsize⟩ := hfine
  by_cases hpos : 0 < s.witness.lastSize
  · obtain ⟨proof, hproof, hverified⟩ := (hs.last.resolve_left (by omega)).consistencyProof hpos
    refine ⟨proof, hproof, { hs with operator := ⟨hsigned, hearlier, fun _ => ?_⟩ }⟩
    obtain ⟨m, hm, hcp, hroot⟩ := hearlier
    have hall : m = s.log.leaves.length := by
      have := hsize hpos
      omega
    rw [hsize hpos, hroot, hall, List.take_length]
    exact hverified
  · have hzero : s.witness.lastSize = 0 := by
      rcases hs.last with hzero | ⟨m, -, hm, -⟩
      · exact hzero
      · omega
    refine ⟨[], ?_, { hs with operator := ⟨hsigned, hearlier, fun h => absurd h hpos⟩ }⟩
    rw [TransparencyLog.consistencyProof, Audit.consistencyProof, hzero, if_neg (by omega),
      if_pos (.inl rfl)]

theorem Honest.submit (hs : Honest S H s) {cp : SignedCheckpoint} {proof : List Bytes}
    (hop : s.operator = .proved cp proof) :
    ∃ sig w, s.witness.witness S H ⟨cp, proof⟩ = (.ok sig, w) ∧
      Honest S H
        { s with witness := w, operator := .idle, outcomes := .cosigned sig :: s.outcomes } := by
  have hfine := hs.operator
  rw [hop] at hfine
  obtain ⟨hsigned, hearlier, hverified⟩ := hfine
  have hcheck : s.witness.check S H ⟨cp, proof⟩ = .ok () := by
    rw [Witness.check, if_neg (not_not.mpr hsigned)]
    by_cases hpos : s.witness.lastSize > 0
    · have hcons := hverified hpos
      have hle := (le_of_verifyConsistency hcons).2
      rw [if_pos hpos, if_neg (not_lt.mpr hle), if_neg (not_not.mpr hcons)]
    · rw [if_neg hpos]
  refine ⟨_, _, by rw [Witness.witness, hcheck], ?_⟩
  exact
    { signs := hs.signs
      last := .inr hearlier
      operator := trivial
      checkpoints := hs.checkpoints
      outcomes := List.forall_mem_cons.mpr ⟨rfl, hs.outcomes⟩ }

theorem Honest.observe (hs : Honest S H s) :
    Honest S H { s with checkpoints := s.checkpoints ++ [s.log.checkpoint S H] } :=
  { hs with
    checkpoints := by
      intro cp hcp
      rcases List.mem_append.mp hcp with hcp | hcp
      · exact hs.checkpoints cp hcp
      · rw [List.mem_singleton.mp hcp]
        exact earlier_self s.log.leaves }

/-- Every index of the present state is seen in a checkpoint of it. -/
theorem good_checkInclusion {l : TransparencyLog} {cp : SignedCheckpoint} {index : ℕ}
    (hcp : Earlier H l.leaves cp.size cp.root) (hsize : cp.size = l.leaves.length)
    (hindex : index < cp.size) : (l.checkInclusion H cp index).good = true := by
  obtain ⟨m, hm, hcpsize, hroot⟩ := hcp
  have hall : m = l.leaves.length := by omega
  have hlt : index < l.leaves.length := by omega
  rw [hall, List.take_length] at hroot
  have hleaf : l.leaves[index]? = some l.leaves[index] := List.getElem?_eq_getElem hlt
  obtain ⟨proof, hproof, hverified⟩ := inclusionProof_verifies (H := H) hleaf
  have hok : l.inclusionProof H index = .ok (l.leaves[index], proof) := by
    rw [TransparencyLog.inclusionProof, Except.check_bind_eq_ok_iff, Except.require_eq_ok_iff]
    refine ⟨by omega, Except.bind_eq_ok_iff.mpr ⟨_, Except.ofOption_eq_ok_iff.mpr hleaf, ?_⟩⟩
    exact Except.bind_eq_ok_iff.mpr ⟨proof, Except.mapError_eq_ok_iff.mpr hproof, rfl⟩
  rw [TransparencyLog.checkInclusion, hok, hsize, hroot]
  exact hverified

theorem Honest.step {e : WatchEvent} (hs : Honest S H s) (hstep : watchStep S H s e = some s')
    (hquiet : undisturbed s e = true) : Honest S H s' := by
  cases e with
  | append e =>
      cases hstep
      exact hs.append e hquiet
  | checkpoint =>
      rw [watchStep] at hstep
      split at hstep
      · cases hstep
        exact hs.checkpoint
      · cases hstep
  | prove =>
      rw [watchStep] at hstep
      split at hstep
      · next lastSize cp hop =>
          obtain ⟨proof, hproof, hnext⟩ := hs.prove hop
          rw [hproof] at hstep
          cases hstep
          exact hnext
      · cases hstep
  | submit =>
      rw [watchStep] at hstep
      split at hstep
      · next cp proof hop =>
          obtain ⟨sig, w, hsig, hnext⟩ := hs.submit hop
          rw [hsig] at hstep
          cases hstep
          exact hnext
      · cases hstep
  | observe =>
      cases hstep
      exact hs.observe
  | inclusion j index =>
      rw [watchStep] at hstep
      split at hstep
      · next cp hcp =>
          split_ifs at hstep with hindex
          cases hstep
          simp only [undisturbed, hcp, Option.all_some, decide_eq_true_eq] at hquiet
          have hgood := good_checkInclusion
            (hs.checkpoints cp (List.mem_of_getElem? hcp)) hquiet hindex
          exact { hs with outcomes := List.forall_mem_cons.mpr ⟨hgood, hs.outcomes⟩ }
      · cases hstep

end

/-- In every run in which nothing is appended between a checkpoint and the proof that is taken for it,
the witness co-signs every checkpoint of the log, and every inclusion proof verifies. -/
theorem honest_log_never_refused (S : SignatureScheme) (H : Hash 32) (signer kid : Bytes)
    (log : TransparencyLog) (hlog : TransparencyLog.new signer kid = .ok log)
    (priv wkid : Bytes) (w : Witness) (hw : newWitness priv wkid (S.publicKey signer) = .ok w)
    (hsize : (S.publicKey signer).length = Sigctx.publicKeySize)
    (hsign : ∀ msg, S.verify (S.publicKey signer) msg (S.sign signer msg) = true)
    (es : List WatchEvent) (s : Watched)
    (hrun : Transition.run (watchStep S H) (.new log w) es = some s)
    (hquiet : Transition.Along (watchStep S H) (fun s e _ => undisturbed s e = true) (.new log w)
      es) :
    ∀ o ∈ s.outcomes, o.good = true := by
  rw [TransparencyLog.new, Except.check_bind_eq_ok_iff] at hlog
  rw [newWitness] at hw
  split at hw
  · cases hw
  · cases hw
    cases hlog.2
    have hhonest : Honest S H s := hquiet.invariant
      (fun s e s' hstep hquiet hs => hs.step hstep hquiet) hrun
      (honest_new (fun msg => Sigctx.verify_sign hsize hsign .auditCheckpoint msg) rfl)
    exact hhonest.outcomes

namespace TransparencySample

def entry : Entry := ⟨0, [], [], [], [], [], [], none, none, none, [], []⟩

/-- A log and its witness; the keys of the free scheme end with the public key. -/
def start : Watched :=
  .new ⟨.new, List.replicate 64 7, [], []⟩ ⟨List.replicate 64 8, [], List.replicate 32 7, 0, []⟩

/-- A checkpoint of one entry and one of two are co-signed, and each client looks at the log before it
grows. -/
def quiet : List WatchEvent :=
  [.append entry, .checkpoint, .prove, .submit, .append entry, .observe, .inclusion 0 1, .checkpoint,
    .prove, .append entry, .submit]

/-- The same, with an entry that is appended before the second proof is taken. -/
def disturbed : List WatchEvent :=
  [.append entry, .checkpoint, .prove, .submit, .append entry, .observe, .checkpoint, .append entry,
    .inclusion 0 1, .prove, .submit]

/-- What the operator and the clients get. -/
def outcomes (es : List WatchEvent) : Option (List Bool) :=
  (Transition.run (watchStep .free (.checksum 32)) start es).map fun s => s.outcomes.map Outcome.good

end TransparencySample

open TransparencySample in
theorem honest_log_never_refused_quiet :
    ∃ s, Transition.run (watchStep .free (.checksum 32)) start quiet = some s ∧
      s.outcomes.length = 3 ∧ ∀ o ∈ s.outcomes, o.good = true := by
  have hrun : outcomes quiet = some [true, true, true] := by decide +kernel
  obtain ⟨s, hs, hgood⟩ := Option.map_eq_some_iff.mp hrun
  refine ⟨s, hs, by simpa using congrArg List.length hgood, ?_⟩
  exact honest_log_never_refused .free (.checksum 32) (List.replicate 64 7) []
    ⟨.new, List.replicate 64 7, [], []⟩ rfl (List.replicate 64 8) []
    ⟨List.replicate 64 8, [], List.replicate 32 7, 0, []⟩ rfl rfl
    (fun msg => by simp [SignatureScheme.free]) quiet s hs (by decide +kernel)

open TransparencySample in
/-- The checkpoint of two entries is refused as a fork, and the second entry is not found in it. -/
theorem honest_log_refused :
    outcomes disturbed = some [false, false, true] ∧
      (Transition.run (watchStep .free (.checksum 32)) start disturbed).map
        (fun s => s.outcomes.filterMap Outcome.refusal) = some [.notConsistentExtension] := by
  decide +kernel

end Sanad.Audit
