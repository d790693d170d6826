import Sanad.Common.HashTreeBits

/-! # The audit log's Merkle tree

`audit/merkle.go`: the RFC 6962 tree over the log's leaves, its consistency proofs and the verifier
for them. The hash is `crypto/sha256`; the model takes it as a parameter `H`, of which only the
digest size of 32 bytes is used.

The source computes roots and proofs by recursion on leaf slices and verifies them by shifting two
indices. `root_eq` relates the first to the hash-tree library; `Sanad.Audit.Consistency` does so for
the proofs and their verifier. Sizes and indices are unbounded here; `Sanad.Audit.Machine` has them as
machine integers, and says up to which sizes the two agree.
-/

namespace Sanad.Audit

/-- The errors of the audit package. -/
inductive AuditError where
  /-- `audit: inclusion index out of range` -/
  | inclusionIndexOutOfRange
  /-- `audit: consistency old size out of range` -/
  | consistencyOldSizeOutOfRange
  deriving DecidableEq, Repr

variable (H : Hash 32)

/-- `hashLeaf` -/
def hashLeaf (d : Bytes) : Bytes := H.sum (0x00 :: d)

/-- `hashNode` -/
def hashNode (l r : Bytes) : Bytes := H.sum (0x01 :: (l ++ r))

/-- The loop of `lp2`: double `k` while it is below `n`, then halve it once. -/
def lp2Loop (n k : ℕ) : ℕ :=
  if 0 < k ∧ k < n then lp2Loop n (2 * k) else k / 2
termination_by n - k

/-- `lp2`: the largest power of two strictly less than `n`, for `n ≥ 2`. -/
def lp2 (n : ℕ) : ℕ := lp2Loop n 1

theorem lp2Loop_two_pow {n a : ℕ} (h : 2 ^ a < n) : lp2Loop n (2 ^ a) = HashTree.split n := by
  induction hd : n - 2 ^ a using Nat.strong_induction_on generalizing a with
  | _ d ih =>
    have hpos : 0 < 2 ^ a := Nat.two_pow_pos a
    rw [lp2Loop, if_pos ⟨hpos, h⟩]
    by_cases hnext : 2 ^ (a + 1) < n
    · rw [← pow_succ']
      exact ih (n - 2 ^ (a + 1)) (by rw [pow_succ] at *; omega) hnext rfl
    · rw [pow_succ'] at hnext
      rw [lp2Loop, if_neg (by omega), HashTree.split_eq h (by omega)]
      omega

theorem lp2_eq_split {n : ℕ} (h : 2 ≤ n) : lp2 n = HashTree.split n := by
  rw [lp2, show 1 = 2 ^ 0 by norm_num]
  exact lp2Loop_two_pow (by omega)

theorem lp2_lt {n : ℕ} (h : 2 ≤ n) : lp2 n < n := by
  rw [lp2_eq_split h]
  exact HashTree.split_lt h

theorem lp2_pos {n : ℕ} (h : 2 ≤ n) : 0 < lp2 n := by
  rw [lp2_eq_split h]
  exact HashTree.split_pos n

/-- `Root`: the Merkle tree hash of the leaf data list. -/
def root (leaves : List Bytes) : Bytes :=
  match leaves with
  | [] => H.sum []
  | [d] => hashLeaf H d
  | d :: d' :: rest =>
    let leaves := d :: d' :: rest
    let k := lp2 leaves.length
    hashNode H (root (leaves.take k)) (root (leaves.drop k))
termination_by leaves.length
decreasing_by
  · have := lp2_lt (n := (d :: d' :: rest).length) (by simp)
    rw [List.length_take]
    omega
  · have := lp2_pos (n := (d :: d' :: rest).length) (by simp)
    simp only [List.length_drop, List.length_cons] at *
    omega

/-- The source's root is the tree hash. -/
theorem root_eq (leaves : List Bytes) : root H leaves = HashTree.root H leaves := by
  induction hn : leaves.length using Nat.strong_induction_on generalizing leaves with
  | _ n ih =>
    match leaves with
    | [] => rw [root, HashTree.root]
    | [d] => rw [root, HashTree.root]; rfl
    | d :: d' :: rest =>
        have h2 : 2 ≤ (d :: d' :: rest).length := by simp
        have hlt := HashTree.split_lt h2
        have hpos := HashTree.split_pos (d :: d' :: rest).length
        rw [HashTree.root_split h2, root]
        simp only [lp2_eq_split h2]
        rw [ih _ (by rw [List.length_take]; omega) _ rfl,
          ih _ (by rw [List.length_drop]; omega) _ rfl]
        rfl

/-- `subproof`: the RFC 6962 SUBPROOF, whose flag says that the verifier knows the subtree's root.
`ConsistencyProof` calls it with `1 ≤ m ≤ len(d)`, where a size other than `m` is at least two. -/
def subproof (m : ℕ) (d : List Bytes) (b : Bool) : List Bytes :=
  if 2 ≤ d.length ∧ m ≠ d.length then
    let k := lp2 d.length
    if m ≤ k then subproof m (d.take k) b ++ [root H (d.drop k)]
    else subproof (m - k) (d.drop k) false ++ [root H (d.take k)]
  else if b then [] else [root H d]
termination_by d.length
decreasing_by
  · have := lp2_lt (n := d.length) (by omega)
    rw [List.length_take]
    omega
  · have := lp2_pos (n := d.length) (by omega)
    rw [List.length_drop]
    omega

/-- `ConsistencyProof`: a proof that the first `oldSize` leaves are a prefix of the list. -/
def consistencyProof (leaves : List Bytes) (oldSize : ℤ) : Except AuditError (List Bytes) :=
  if oldSize < 0 ∨ oldSize > leaves.length then .error .consistencyOldSizeOutOfRange
  else if oldSize = 0 ∨ oldSize = leaves.length then .ok []
  else .ok (subproof H oldSize.toNat leaves true)

/-! ## The verifier -/

/-- What `VerifyConsistency` carries through its loops besides the two indices: the rest of the
proof (`proof[p:]`), the old and the new root computed so far, and, for the analysis only, the byte
strings hashed so far. -/
structure Climb where
  proof : List Bytes
  fr : Bytes
  sr : Bytes
  hashed : List Bytes

/-- Absorb the next proof element on the given side. The verifier returns false when the proof is
used up. -/
def Climb.step (s : Climb) : HashTree.Side → Except Climb Climb
  | .left =>
    match s.proof with
    | [] => .error s
    | c :: rest => .ok
        { proof := rest, fr := hashNode H c s.fr, sr := hashNode H c s.sr,
          hashed := s.hashed ++ [0x01 :: (c ++ s.fr), 0x01 :: (c ++ s.sr)] }
  | .right =>
    match s.proof with
    | [] => .error s
    | c :: rest => .ok
        { proof := rest, fr := s.fr, sr := hashNode H s.sr c,
          hashed := s.hashed ++ [0x01 :: (s.sr ++ c)] }

/-- The first loop: `for node&1 == 1`. -/
def stripOnes (node last : ℕ) : ℕ × ℕ :=
  if node % 2 = 1 then stripOnes (node / 2) (last / 2) else (node, last)
termination_by node

/-- The second loop: `for node > 0`. It returns what is left of `last`. -/
def climbOld (node last : ℕ) (s : Climb) : Except Climb (ℕ × Climb) :=
  if node = 0 then .ok (last, s)
  else do
    let s ←
      if node % 2 = 1 then s.step H .left
      else if node < last then s.step H .right
      else .ok s
    climbOld (node / 2) (last / 2) s
termination_by node

/-- The third loop: `for last > 0`. -/
def climbNew (last : ℕ) (s : Climb) : Except Climb Climb :=
  if last = 0 then .ok s
  else do
    let s ← s.step H .right
    climbNew (last / 2) s
termination_by last

/-- The loops of `VerifyConsistency`, for `0 < oldSize < newSize`. An error is an early
`return false`. -/
def consistencyRun (oldSize newSize : ℕ) (proof : List Bytes) (oldRoot : Bytes) :
    Except Climb Climb := do
  let (node, last) := stripOnes (oldSize - 1) (newSize - 1)
  let s ←
    if 0 < node then
      match proof with
      | [] => .error { proof := [], fr := [], sr := [], hashed := [] }
      | c :: rest => .ok { proof := rest, fr := c, sr := c, hashed := [] }
    else .ok { proof := proof, fr := oldRoot, sr := oldRoot, hashed := [] }
  let (last, s) ← climbOld H node last s
  climbNew H last s

/-- `VerifyConsistency`: the proof shows the tree of `oldSize` is a prefix of that of `newSize`. -/
def verifyConsistency (oldSize newSize : ℤ) (proof : List Bytes) (oldRoot newRoot : Bytes) : Bool :=
  if oldSize < 0 ∨ newSize < 0 ∨ oldSize > newSize then false
  else if oldSize = newSize then proof.length = 0 && oldRoot = newRoot
  else if oldSize = 0 then proof.length = 0
  else
    match consistencyRun H oldSize.toNat newSize.toNat proof oldRoot with
    | .error _ => false
    | .ok s => s.fr = oldRoot && s.sr = newRoot && s.proof.length = 0

/-- The byte strings that `VerifyConsistency` hashes. -/
def verifyConsistencyHashed (oldSize newSize : ℤ) (proof : List Bytes) (oldRoot : Bytes) :
    List Bytes :=
  if 0 < oldSize ∧ oldSize < newSize then
    match consistencyRun H oldSize.toNat newSize.toNat proof oldRoot with
    | .error s => s.hashed
    | .ok s => s.hashed
  else []

end Sanad.Audit
