import Sanad.Audit.Consistency
import Sanad.Common.Json.Encode
import Sanad.Sigctx

/-! # Witnesses of the audit log

`audit/witness.go`: a witness co-signs the operator's checkpoints, each only after a consistency
proof from the last one it co-signed. The operator is not trusted: the checkpoints and proofs of a
run are arbitrary, and so are the roots they carry.

A run is a list of calls. `cosigned` keeps the calls that succeed; each of them extends the one
before (`isChain_cosigned`), and prefix consistency travels along such a chain
(`commits_take_of_isChain`).
-/

namespace Sanad.Audit

open Sigctx

/-- `SignedCheckpoint`: the operator's signed commitment to the log. -/
structure SignedCheckpoint where
  size : ℤ
  root : Bytes
  keyID : Bytes
  signature : Bytes
  deriving DecidableEq

/-- `checkpointMsg`: the JSON that both the operator and a witness sign. -/
def checkpointMsg (cp : SignedCheckpoint) : Bytes :=
  Json.render (.ofFields
    [("size", .ofInt cp.size), ("root", .ofBytes cp.root), ("kid", .ofString cp.keyID)])

/-- `VerifyCheckpoint` -/
def verifyCheckpoint (S : SignatureScheme) (pub : Bytes) (cp : SignedCheckpoint) : Bool :=
  verify S .auditCheckpoint pub (checkpointMsg cp) cp.signature

/-- `Witness`: its keys, and the last checkpoint it co-signed. -/
structure Witness where
  priv : Bytes
  kid : Bytes
  operatorPub : Bytes
  lastSize : ℤ
  lastRoot : Bytes

/-- `WitnessSignature` -/
structure WitnessSignature where
  keyID : Bytes
  size : ℤ
  signature : Bytes

/-- The errors of a witness. -/
inductive WitnessError where
  /-- `audit: invalid witness key` -/
  | invalidWitnessKey
  /-- `audit: operator checkpoint signature invalid` -/
  | operatorSignatureInvalid
  /-- `audit: checkpoint size went backwards (possible rewrite)` -/
  | sizeWentBackwards
  /-- `audit: checkpoint is not a consistent extension (possible rewrite/fork)` -/
  | notConsistentExtension
  deriving DecidableEq, Repr

/-- `NewWitness` -/
def newWitness (priv kid operatorPub : Bytes) : Except WitnessError Witness :=
  if priv.length ≠ privateKeySize then .error .invalidWitnessKey
  else .ok { priv, kid, operatorPub, lastSize := 0, lastRoot := [] }

/-- A call of `Witness.Witness`: a checkpoint and the proof that it extends the last one. -/
structure Call where
  cp : SignedCheckpoint
  consistency : List Bytes
  deriving DecidableEq

section

variable (S : SignatureScheme) (H : Hash 32)

/-- What `Witness.Witness` checks before it co-signs. -/
def Witness.check (w : Witness) (c : Call) : Except WitnessError Unit :=
  if ¬ verifyCheckpoint S w.operatorPub c.cp then .error .operatorSignatureInvalid
  else if w.lastSize > 0 then
    if c.cp.size < w.lastSize then .error .sizeWentBackwards
    else if ¬ verifyConsistency H w.lastSize c.cp.size c.consistency w.lastRoot c.cp.root then
      .error .notConsistentExtension
    else .ok ()
  else .ok ()

/-- `Witness.Witness`: the result, and the witness afterwards. -/
def Witness.witness (w : Witness) (c : Call) : Except WitnessError WitnessSignature × Witness :=
  match w.check S H c with
  | .error e => (.error e, w)
  | .ok () =>
    (.ok
      { keyID := w.kid, size := c.cp.size,
        signature := sign S .auditWitness w.priv (checkpointMsg c.cp) },
      { w with lastSize := c.cp.size, lastRoot := c.cp.root })

/-- The byte strings that a call of `Witness.Witness` hashes for its consistency check. -/
def Witness.hashed (w : Witness) (c : Call) : List Bytes :=
  if verifyCheckpoint S w.operatorPub c.cp ∧ w.lastSize > 0 ∧ ¬ c.cp.size < w.lastSize then
    verifyConsistencyHashed H w.lastSize c.cp.size c.consistency w.lastRoot
  else []

/-- The calls of a run that co-sign their checkpoint, in order. -/
def Witness.cosigned (w : Witness) : List Call → List Call
  | [] => []
  | c :: calls =>
    match w.witness S H c with
    | (.ok _, w') => c :: w'.cosigned calls
    | (.error _, w') => w'.cosigned calls

/-- The byte strings hashed in a run. -/
def Witness.runHashed (w : Witness) : List Call → List Bytes
  | [] => []
  | c :: calls => w.hashed S H c ++ (w.witness S H c).2.runHashed calls

end

section

variable {S : SignatureScheme} {H : Hash 32}

/-- What a successful check has established. -/
theorem Witness.check_eq_ok {w : Witness} {c : Call} (h : w.check S H c = .ok ())
    (hlast : 0 < w.lastSize) :
    verifyConsistency H w.lastSize c.cp.size c.consistency w.lastRoot c.cp.root = true ∧
      w.hashed S H c = verifyConsistencyHashed H w.lastSize c.cp.size c.consistency w.lastRoot := by
  rw [Witness.check] at h
  split at h
  · cases h
  · next hsig =>
      split at h
      · cases h
      · next hsize =>
          split at h
          · cases h
          · next hcons =>
              refine ⟨not_not.mp hcons, ?_⟩
              rw [Witness.hashed, if_pos ⟨not_not.mp hsig, hlast, hsize⟩]

/-- A failing call leaves the witness as it was; a successful one remembers the checkpoint. -/
theorem Witness.witness_snd (w : Witness) (c : Call) :
    (∃ e, w.witness S H c = (.error e, w)) ∨
      w.check S H c = .ok () ∧ ∃ sig, w.witness S H c =
        (.ok sig, { w with lastSize := c.cp.size, lastRoot := c.cp.root }) := by
  rw [Witness.witness]
  cases h : w.check S H c with
  | error e => exact .inl ⟨e, rfl⟩
  | ok u => exact .inr ⟨rfl, _, rfl⟩

/-- A failing call leaves the witness as it was. -/
theorem Witness.witness_of_error {w : Witness} {c : Call} {e : WitnessError}
    (h : (w.witness S H c).1 = .error e) : (w.witness S H c).2 = w := by
  rcases w.witness_snd (S := S) (H := H) c with ⟨e', hw⟩ | ⟨-, sig, hw⟩
  · rw [hw]
  · rw [hw] at h
    cases h

/-- `c` extends the checkpoint of `p`, as far as `VerifyConsistency` can tell, and the strings
hashed for it are among `Q`. -/
structure Extends (H : Hash 32) (Q : List Bytes) (p c : Call) : Prop where
  verified : verifyConsistency H p.cp.size c.cp.size c.consistency p.cp.root c.cp.root = true
  hashed : verifyConsistencyHashed H p.cp.size c.cp.size c.consistency p.cp.root ⊆ Q

theorem Extends.size_le {Q : List Bytes} {p c : Call} (h : Extends H Q p c) :
    p.cp.size ≤ c.cp.size := (le_of_verifyConsistency h.verified).2

/-- After a checkpoint of positive size, each co-signed one extends the one before. -/
theorem isChain_cosigned {Q : List Bytes} {w : Witness} {p : Call} (hsize : w.lastSize = p.cp.size)
    (hroot : w.lastRoot = p.cp.root) (hp : 1 ≤ p.cp.size) {calls : List Call}
    (hQ : w.runHashed S H calls ⊆ Q) : (p :: w.cosigned S H calls).IsChain (Extends H Q) := by
  induction calls generalizing w p with
  | nil => exact List.isChain_singleton p
  | cons c calls ih =>
      rw [Witness.runHashed, List.append_subset] at hQ
      rcases w.witness_snd (S := S) (H := H) c with ⟨e, hw⟩ | ⟨hcheck, sig, hw⟩
      · rw [Witness.cosigned, hw]
        rw [hw] at hQ
        exact ih hsize hroot hp hQ.2
      · rw [Witness.cosigned, hw]
        rw [hw] at hQ
        obtain ⟨hverified, hhashed⟩ := w.check_eq_ok hcheck (by omega)
        rw [hhashed, hsize, hroot] at hQ
        rw [hsize, hroot] at hverified
        have hext : Extends H Q p c := ⟨hverified, hQ.1⟩
        exact List.isChain_cons_cons.mpr
          ⟨hext, ih rfl rfl (hp.trans hext.size_le) hQ.2⟩

/-- From any co-signed checkpoint of positive size on, each extends the one before. -/
theorem isChain_of_cosigned_eq {Q : List Bytes} {w : Witness} {calls pre rest : List Call} {c : Call}
    (h : w.cosigned S H calls = pre ++ c :: rest) (hc : 1 ≤ c.cp.size)
    (hQ : w.runHashed S H calls ⊆ Q) : (c :: rest).IsChain (Extends H Q) := by
  induction calls generalizing w pre with
  | nil =>
      rw [Witness.cosigned] at h
      simp at h
  | cons a calls ih =>
      rw [Witness.runHashed, List.append_subset] at hQ
      rcases w.witness_snd (S := S) (H := H) a with ⟨e, hw⟩ | ⟨-, sig, hw⟩
      · rw [Witness.cosigned, hw] at h
        rw [hw] at hQ
        exact ih h hQ.2
      · rw [Witness.cosigned, hw] at h
        rw [hw] at hQ
        cases pre with
        | nil =>
            obtain ⟨rfl, rfl⟩ := List.cons.inj h
            exact isChain_cosigned rfl rfl hc hQ.2
        | cons b pre => exact ih (List.cons.inj h).2 hQ.2

/-! ## Prefix consistency along a chain -/

/-- The checkpoint commits to a list of leaves. -/
def Commits (H : Hash 32) (cp : SignedCheckpoint) (leaves : List Bytes) : Prop :=
  cp.size = leaves.length ∧ cp.root = root H leaves

/-- The checkpoint of `p` commits to its leaves, or the subtree root at which the proof of `c`
starts is as long as a digest. -/
def Aligned (H : Hash 32) (leaves : SignedCheckpoint → List Bytes) (p c : Call) : Prop :=
  Commits H p.cp (leaves p.cp) ∨
    (startsFromProof p.cp.size c.cp.size → ∀ x ∈ c.consistency.head?, x.length = 32)

theorem Extends.length_root {Q : List Bytes} {p c : Call} (h : Extends H Q p c)
    (hp : 1 ≤ p.cp.size) (hroot : p.cp.root.length = 32) : c.cp.root.length = 32 := by
  obtain ⟨m, hm⟩ := Int.eq_ofNat_of_zero_le (show 0 ≤ p.cp.size by omega)
  obtain ⟨n, hn⟩ := Int.eq_ofNat_of_zero_le (show 0 ≤ c.cp.size by have := h.size_le; omega)
  have hv := h.verified
  rw [hm, hn] at hv
  exact length_of_verifyConsistency (by omega) hroot hv

/-- Of two checkpoints that commit to leaves, the later one extends the leaves of the earlier. -/
theorem Extends.prefix_of_commits {Q : List Bytes} (hQ : ¬ H.Collides Q) {p c : Call}
    (h : Extends H Q p c) (hp : 1 ≤ p.cp.size) {D E : List Bytes} (hD : Commits H p.cp D)
    (hDQ : HashTree.rootInputs H D ⊆ Q) (hE : Commits H c.cp E)
    (hEQ : HashTree.rootInputs H E ⊆ Q) : D = E.take D.length := by
  have hverified := h.verified
  have hhashed := h.hashed
  have hlen := hD.1
  rw [hD.1, hD.2, hE.1, hE.2] at hverified
  rw [hD.1, hD.2, hE.1] at hhashed
  exact prefix_of_verifyConsistency hQ (by omega) hDQ hEQ hhashed hverified

/-- One step back along a chain: if the later checkpoint commits to `E`, the earlier one commits to
a prefix of `E`. -/
theorem Extends.commits_take {Q : List Bytes} (hQ : ¬ H.Collides Q) {p c : Call}
    (h : Extends H Q p c) (hp : 1 ≤ p.cp.size) (hroot : p.cp.root.length = 32)
    {leaves : SignedCheckpoint → List Bytes} (hleaves : HashTree.rootInputs H (leaves p.cp) ⊆ Q)
    (haligned : Aligned H leaves p c) {E : List Bytes} (hc : Commits H c.cp E)
    (hE : HashTree.rootInputs H E ⊆ Q) :
    Commits H p.cp (E.take p.cp.size.toNat) ∧
      HashTree.rootInputs H (E.take p.cp.size.toNat) ⊆ Q := by
  rcases haligned with hcommits | hstart
  · have hpre := h.prefix_of_commits hQ hp hcommits hleaves hc hE
    rw [hcommits.1, Int.toNat_natCast, ← hpre]
    exact ⟨hcommits, hleaves⟩
  · obtain ⟨m, hm⟩ := Int.eq_ofNat_of_zero_le (show 0 ≤ p.cp.size by omega)
    have hle := h.size_le
    have hverified := h.verified
    have hhashed := h.hashed
    rw [hc.1, hc.2, hm] at hverified
    rw [hc.1, hm] at hhashed hle hstart
    have hsize : p.cp.size = (E.take m).length := by
      rw [hm, List.length_take]
      omega
    rw [show p.cp.size.toNat = m by rw [hm]; rfl]
    obtain ⟨hold, hinputs⟩ :=
      root_take_of_verifyConsistency hQ (by omega) hroot hstart hE hhashed hverified
    exact ⟨⟨hsize, hold⟩, hinputs⟩

/-- Back along a whole chain: its first checkpoint commits to a prefix of what its last one commits
to. -/
theorem commits_take_of_isChain {Q : List Bytes} (hQ : ¬ H.Collides Q) {p last : Call}
    {mid : List Call} (hchain : (p :: (mid ++ [last])).IsChain (Extends H Q))
    {leaves : SignedCheckpoint → List Bytes}
    (haligned : (p :: (mid ++ [last])).IsChain (Aligned H leaves))
    (hleaves : ∀ q ∈ p :: mid, HashTree.rootInputs H (leaves q.cp) ⊆ Q)
    (hp : 1 ≤ p.cp.size) (hroot : p.cp.root.length = 32) {E : List Bytes}
    (hlast : Commits H last.cp E) (hE : HashTree.rootInputs H E ⊆ Q) :
    Commits H p.cp (E.take p.cp.size.toNat) ∧
      HashTree.rootInputs H (E.take p.cp.size.toNat) ⊆ Q := by
  induction mid generalizing p with
  | nil =>
      obtain ⟨hext, -⟩ := List.isChain_cons_cons.mp hchain
      obtain ⟨hal, -⟩ := List.isChain_cons_cons.mp haligned
      exact hext.commits_take hQ hp hroot (hleaves p List.mem_cons_self) hal hlast hE
  | cons q mid ih =>
      obtain ⟨hext, hchain⟩ := List.isChain_cons_cons.mp hchain
      obtain ⟨hal, haligned⟩ := List.isChain_cons_cons.mp haligned
      have hle := hext.size_le
      obtain ⟨hq, hqin⟩ := ih hchain haligned
        (fun r hr => hleaves r (List.mem_cons_of_mem p hr)) (hp.trans hle)
        (hext.length_root hp hroot)
      have hstep := hext.commits_take hQ hp hroot (hleaves p List.mem_cons_self) hal hq hqin
      rwa [List.take_take, Nat.min_eq_left (by omega)] at hstep

end

/-! ## Forks -/

/-- The byte strings hashed in a run and for the roots of the given lists. -/
def forkHashed (S : SignatureScheme) (H : Hash 32) (w : Witness) (calls : List Call)
    (lists : List (List Bytes)) : List Bytes :=
  lists.flatMap (HashTree.rootInputs H) ++ w.runHashed S H calls

namespace MisalignedCut

/-- A checksum whose digests all start with a zero byte. -/
def base (b : Bytes) : Bytes := 0 :: (Hash.checksum 31).sum b

/-- The checksum with one digest replaced. -/
def planted (b target : Bytes) (h : target.length = 32) : Hash 32 where
  sum x := if x = b then target else base x
  length_sum x := by
    split
    · exact h
    · rw [base, List.length_cons, (Hash.checksum 31).length_sum]

/-- The log of the earlier checkpoint, and that of the later one: they differ in the fifth leaf. -/
def D : List Bytes := [[1], [2], [3], [4], [5]]

def E : List Bytes := [[1], [2], [3], [4], [6], [7], [8]]

/-- The digest of the fifth leaf of `D`, without its first byte. -/
def x₀ : Bytes := (base (0x00 :: [5])).tail

/-- The node over the fifth and sixth leaf of `E`. -/
def T : Bytes := base (0x01 :: (base (0x00 :: [6]) ++ base (0x00 :: [7])))

/-- The digest of the last leaf of `E`. -/
def e₆ : Bytes := base (0x00 :: [8])

/-- The hash under which the two trees meet: one string has the digest that continues `T` by a byte
of `e₆`. -/
def hash : Hash 32 := planted (0x01 :: x₀) (T.tail ++ e₆.take 1) (by decide +kernel)

/-- The subtree that both logs share. -/
def shared : Bytes := root hash (E.take 4)

/-- The root in between, of no list of leaves. -/
def between : Bytes := hashNode hash (shared ++ T.take 1) (hash.sum (0x01 :: x₀))

/-- The operator's key pair. -/
def operator : Bytes := List.replicate 64 7

/-- The operator signs a checkpoint. -/
def signed (size : ℤ) (root : Bytes) : SignedCheckpoint :=
  let cp : SignedCheckpoint := { size, root, keyID := Bytes.ascii "op", signature := [] }
  { cp with signature := sign .free .auditCheckpoint operator (checkpointMsg cp) }

def first : Call := { cp := signed 5 (root hash D), consistency := [] }

def second : Call :=
  { cp := signed 6 between, consistency := [x₀, [], shared ++ T.take 1] }

def third : Call :=
  { cp := signed 7 (root hash E), consistency := [T ++ e₆.take 1, e₆.tail, shared] }

def witness : Witness :=
  { priv := List.replicate 64 9, kid := Bytes.ascii "w", operatorPub := List.replicate 32 7,
    lastSize := 0, lastRoot := [] }

end MisalignedCut

end Sanad.Audit
