import Sanad.Audit.Merkle

/-! # Inclusion proofs of the audit log

`audit/merkle.go`: the audit path of a leaf and the verifier for it. The verifier takes the path from
its end, which is the sibling next to the root, and splits the size as the tree does, so it follows the
recursion that made the path.
-/

namespace Sanad.Audit

section

variable (H : Hash 32)

/-- `inclusionPath`. `InclusionProof` calls it with an index in the list, so a list that is not split
has one leaf. -/
def inclusionPath (m : ℕ) (d : List Bytes) : List Bytes :=
  if 2 ≤ d.length then
    let k := lp2 d.length
    if m < k then inclusionPath m (d.take k) ++ [root H (d.drop k)]
    else inclusionPath (m - k) (d.drop k) ++ [root H (d.take k)]
  else []
termination_by d.length
decreasing_by
  · have := lp2_lt (n := d.length) (by omega)
    rw [List.length_take]
    omega
  · have := lp2_pos (n := d.length) (by omega)
    rw [List.length_drop]
    omega

/-- `InclusionProof`: the audit path for the leaf at an index. -/
def inclusionProof (leaves : List Bytes) (index : ℤ) : Except AuditError (List Bytes) :=
  if index < 0 ∨ index ≥ leaves.length then .error .inclusionIndexOutOfRange
  else .ok (inclusionPath H index.toNat leaves)

/-- `rootFromInclusion`, for an index and a size that are not negative. -/
def rootFromInclusion (leafHash : Bytes) (index size : ℕ) (proof : List Bytes) : Option Bytes :=
  if size = 0 ∨ index ≥ size then none
  else if size = 1 then if index = 0 ∧ proof = [] then some leafHash else none
  else
    match proof.getLast? with
    | none => none
    | some last =>
      let k := lp2 size
      if index < k then
        (rootFromInclusion leafHash index k proof.dropLast).map fun left => hashNode H left last
      else
        (rootFromInclusion leafHash (index - k) (size - k) proof.dropLast).map fun right =>
          hashNode H last right
termination_by size
decreasing_by
  · exact lp2_lt (by omega)
  · have := lp2_pos (n := size) (by omega)
    omega

/-- `VerifyInclusion` -/
def verifyInclusion (leaf : Bytes) (index size : ℤ) (proof : List Bytes) (root : Bytes) : Bool :=
  if index < 0 ∨ size < 0 then false
  else rootFromInclusion H (hashLeaf H leaf) index.toNat size.toNat proof = some root

end

variable {H : Hash 32}

/-- The root over at least two leaves is the node over its two halves. -/
theorem root_of_two_le {leaves : List Bytes} (h : 2 ≤ leaves.length) :
    root H leaves = hashNode H (root H (leaves.take (lp2 leaves.length)))
      (root H (leaves.drop (lp2 leaves.length))) := by
  match leaves, h with
  | d :: d' :: rest, _ => rw [root]

/-- One step of the verifier, for a proof with a last element. -/
theorem rootFromInclusion_concat {leafHash last : Bytes} {index size : ℕ} {proof : List Bytes}
    (h2 : 2 ≤ size) (hindex : index < size) :
    rootFromInclusion H leafHash index size (proof ++ [last]) =
      if index < lp2 size then
        (rootFromInclusion H leafHash index (lp2 size) proof).map fun left => hashNode H left last
      else
        (rootFromInclusion H leafHash (index - lp2 size) (size - lp2 size) proof).map fun right =>
          hashNode H last right := by
  rw [rootFromInclusion, if_neg (by omega), if_neg (by omega)]
  simp

/-- The path of a leaf leads to the root. -/
theorem rootFromInclusion_inclusionPath {leaves : List Bytes} {i : ℕ} {leaf : Bytes}
    (hleaf : leaves[i]? = some leaf) :
    rootFromInclusion H (hashLeaf H leaf) i leaves.length (inclusionPath H i leaves) =
      some (root H leaves) := by
  induction hn : leaves.length using Nat.strong_induction_on generalizing leaves i with
  | _ n ih =>
    have hi : i < leaves.length := (List.getElem?_eq_some_iff.mp hleaf).1
    subst hn
    by_cases h2 : 2 ≤ leaves.length
    · have hlt := lp2_lt h2
      have hpos := lp2_pos h2
      rw [inclusionPath, if_pos h2, root_of_two_le h2]
      dsimp only
      by_cases hside : i < lp2 leaves.length
      · -- the leaf is in the left half
        have hlen : (leaves.take (lp2 leaves.length)).length = lp2 leaves.length :=
          List.length_take_of_le hlt.le
        have htake : (leaves.take (lp2 leaves.length))[i]? = some leaf := by
          rw [List.getElem?_take_of_lt hside, hleaf]
        rw [if_pos hside, rootFromInclusion_concat h2 hi, if_pos hside,
          ih _ hlt htake hlen, Option.map_some]
      · -- the leaf is in the right half, where the indices start anew
        have hlen : (leaves.drop (lp2 leaves.length)).length = leaves.length - lp2 leaves.length :=
          List.length_drop ..
        have hdrop : (leaves.drop (lp2 leaves.length))[i - lp2 leaves.length]? = some leaf := by
          rw [List.getElem?_drop, Nat.add_sub_cancel' (by omega), hleaf]
        rw [if_neg hside, rootFromInclusion_concat h2 hi, if_neg hside,
          ih _ (by omega) hdrop hlen, Option.map_some]
    · match leaves, hi with
      | [d], hi =>
          have hzero : i = 0 := by simpa using hi
          subst hzero
          cases hleaf
          rw [inclusionPath, if_neg h2, rootFromInclusion, root]
          simp
      | d :: d' :: rest, _ => simp at h2

/-- Completeness of inclusion proofs. -/
theorem inclusionProof_verifies {leaves : List Bytes} {i : ℕ} {leaf : Bytes}
    (hleaf : leaves[i]? = some leaf) :
    ∃ proof, inclusionProof H leaves i = .ok proof ∧
      verifyInclusion H leaf i leaves.length proof (root H leaves) = true := by
  have hi : i < leaves.length := (List.getElem?_eq_some_iff.mp hleaf).1
  refine ⟨inclusionPath H i leaves, ?_, ?_⟩
  · rw [inclusionProof, if_neg (by omega), Int.toNat_natCast]
  · rw [verifyInclusion, if_neg (by omega), Int.toNat_natCast, Int.toNat_natCast,
      rootFromInclusion_inclusionPath hleaf]
    exact decide_eq_true rfl

/-! ## Soundness -/

/-- The byte strings that `rootFromInclusion` hashes, the leaf apart. -/
def rootFromInclusionHashed (H : Hash 32) (leafHash : Bytes) (index size : ℕ) (proof : List Bytes) :
    List Bytes :=
  if size < 2 ∨ index ≥ size then []
  else
    match proof.getLast? with
    | none => []
    | some last =>
      let k := lp2 size
      if index < k then
        rootFromInclusionHashed H leafHash index k proof.dropLast ++
          ((rootFromInclusion H leafHash index k proof.dropLast).map fun left =>
            HashTree.nodeInput left last).toList
      else
        rootFromInclusionHashed H leafHash (index - k) (size - k) proof.dropLast ++
          ((rootFromInclusion H leafHash (index - k) (size - k) proof.dropLast).map fun right =>
            HashTree.nodeInput last right).toList
termination_by size
decreasing_by
  · exact lp2_lt (by omega)
  · have := lp2_pos (n := size) (by omega)
    omega

theorem rootFromInclusionHashed_concat {leafHash last : Bytes} {index size : ℕ} {proof : List Bytes}
    (h2 : 2 ≤ size) (hindex : index < size) :
    rootFromInclusionHashed H leafHash index size (proof ++ [last]) =
      if index < lp2 size then
        rootFromInclusionHashed H leafHash index (lp2 size) proof ++
          ((rootFromInclusion H leafHash index (lp2 size) proof).map fun left =>
            HashTree.nodeInput left last).toList
      else
        rootFromInclusionHashed H leafHash (index - lp2 size) (size - lp2 size) proof ++
          ((rootFromInclusion H leafHash (index - lp2 size) (size - lp2 size) proof).map fun right =>
            HashTree.nodeInput last right).toList := by
  rw [rootFromInclusionHashed, if_neg (by omega)]
  simp

/-- An index that leads to a root is in range, and above one leaf a proof is not empty. -/
theorem rootFromInclusion_eq_some {leafHash r : Bytes} {index size : ℕ} {proof : List Bytes}
    (h : rootFromInclusion H leafHash index size proof = some r) :
    index < size ∧ (size = 1 → proof = [] ∧ r = leafHash) ∧
      (2 ≤ size → ∃ front last, proof = front ++ [last]) := by
  rw [rootFromInclusion] at h
  split at h
  · cases h
  · next hsize =>
      refine ⟨by omega, ?_, ?_⟩
      · rintro rfl
        rw [if_pos rfl] at h
        split at h
        · next hempty => exact ⟨hempty.2, (Option.some.inj h).symm⟩
        · cases h
      · intro h2
        rw [if_neg (by omega)] at h
        cases hlast : proof.getLast? with
        | none => simp [hlast] at h
        | some last => exact ⟨proof.dropLast, last, (List.dropLast_append_getLast? last hlast).symm⟩

/-- What a proof leads to is as long as a digest. -/
theorem length_of_rootFromInclusion {leafHash r : Bytes} {index size : ℕ} {proof : List Bytes}
    (hleaf : leafHash.length = 32) (h : rootFromInclusion H leafHash index size proof = some r) :
    r.length = 32 := by
  obtain ⟨hindex, hone, htwo⟩ := rootFromInclusion_eq_some h
  by_cases h2 : 2 ≤ size
  · obtain ⟨front, last, rfl⟩ := htwo h2
    rw [rootFromInclusion_concat h2 hindex] at h
    split at h
    · obtain ⟨left, -, rfl⟩ := Option.map_eq_some_iff.mp h
      exact H.length_sum _
    · obtain ⟨right, -, rfl⟩ := Option.map_eq_some_iff.mp h
      exact H.length_sum _
  · rw [(hone (by omega)).2, hleaf]

/-- Without a collision, a proof that leads from a leaf to the root is the path of that leaf. The
elements of the proof may have any length; what they are joined to is a digest, so that the place of
the cut is known. -/
theorem path_of_rootFromInclusion {Q : List Bytes} (hQ : ¬ H.Collides Q) {leaves proof : List Bytes}
    {i : ℕ} {leaf : Bytes} (hleaf : HashTree.leafInput leaf ∈ Q)
    (hroot : HashTree.rootInputs H leaves ⊆ Q)
    (hin : rootFromInclusionHashed H (hashLeaf H leaf) i leaves.length proof ⊆ Q)
    (h : rootFromInclusion H (hashLeaf H leaf) i leaves.length proof = some (root H leaves)) :
    leaves[i]? = some leaf ∧ proof = inclusionPath H i leaves := by
  induction hn : leaves.length using Nat.strong_induction_on generalizing leaves i proof with
  | _ n ih =>
    subst hn
    obtain ⟨hi, hone, htwo⟩ := rootFromInclusion_eq_some h
    by_cases h2 : 2 ≤ leaves.length
    · have hlt := lp2_lt h2
      have hpos := lp2_pos h2
      have hsplit := lp2_eq_split h2
      obtain ⟨front, last, rfl⟩ := htwo h2
      rw [rootFromInclusionHashed_concat h2 hi] at hin
      rw [rootFromInclusion_concat h2 hi] at h
      rw [inclusionPath, if_pos h2]
      dsimp only
      by_cases hside : i < lp2 leaves.length
      · rw [if_pos hside] at h hin ⊢
        obtain ⟨left, hleft, hnode⟩ := Option.map_eq_some_iff.mp h
        rw [hleft, List.append_subset] at hin
        -- the computed half is a digest, and tells where in the node the last element starts
        have happ : left ++ last = _ := HashTree.append_eq_of_sum_eq_root hQ h2 hroot
          (hin.2 (by simp)) (hnode.trans (root_eq H leaves))
        obtain ⟨rfl, rfl⟩ := List.append_inj happ (by
          rw [length_of_rootFromInclusion (H.length_sum _) hleft, HashTree.length_root])
        have hlen : (leaves.take (lp2 leaves.length)).length = lp2 leaves.length :=
          List.length_take_of_le hlt.le
        have hhalf : HashTree.rootInputs H (leaves.take (lp2 leaves.length)) ⊆ Q := by
          rw [hsplit]
          exact List.Subset.trans (HashTree.rootInputs_take_subset h2) hroot
        obtain ⟨hget, rfl⟩ := ih _ hlt hhalf (by rw [hlen]; exact hin.1)
          (by rw [hlen, hleft, root_eq, hsplit]) hlen
        rw [List.getElem?_take_of_lt hside] at hget
        exact ⟨hget, by rw [root_eq, hsplit]⟩
      · rw [if_neg hside] at h hin ⊢
        obtain ⟨right, hright, hnode⟩ := Option.map_eq_some_iff.mp h
        rw [hright, List.append_subset] at hin
        have happ : last ++ right = _ := HashTree.append_eq_of_sum_eq_root hQ h2 hroot
          (hin.2 (by simp)) (hnode.trans (root_eq H leaves))
        obtain ⟨rfl, rfl⟩ := List.append_inj' happ (by
          rw [length_of_rootFromInclusion (H.length_sum _) hright, HashTree.length_root])
        have hlen : (leaves.drop (lp2 leaves.length)).length = leaves.length - lp2 leaves.length :=
          List.length_drop ..
        have hhalf : HashTree.rootInputs H (leaves.drop (lp2 leaves.length)) ⊆ Q := by
          rw [hsplit]
          exact List.Subset.trans (HashTree.rootInputs_drop_subset h2) hroot
        obtain ⟨hget, rfl⟩ := ih _ (by omega) hhalf (by rw [hlen]; exact hin.1)
          (by rw [hlen, hright, root_eq, hsplit]) hlen
        rw [List.getElem?_drop, Nat.add_sub_cancel' (by omega)] at hget
        exact ⟨hget, by rw [root_eq, hsplit]⟩
    · obtain ⟨rfl, hsum⟩ := hone (by omega)
      match leaves, hi with
      | [d], hi =>
          have hzero : i = 0 := by simpa using hi
          subst hzero
          rw [root_eq, HashTree.root_singleton] at hsum
          have heq := Hash.eq_of_not_collides hQ (hroot (by simp [HashTree.rootInputs])) hleaf hsum
          simp only [HashTree.leafInput, List.cons.injEq, true_and] at heq
          rw [inclusionPath, if_neg h2, heq]
          exact ⟨rfl, rfl⟩
      | d :: d' :: rest, _ => simp at h2

/-- The byte strings hashed when a root is computed and an inclusion proof for it is verified. -/
def inclusionHashed (H : Hash 32) (leaves : List Bytes) (leaf : Bytes) (index : ℤ)
    (proof : List Bytes) : List Bytes :=
  HashTree.rootInputs H leaves ++ HashTree.leafInput leaf ::
    rootFromInclusionHashed H (hashLeaf H leaf) index.toNat leaves.length proof

/-- Inclusion proofs are exact. The proof of the leaf at an index is accepted for it; and whatever is
accepted, with any number of elements of any lengths, is the proof of the leaf at that index, unless
two of the byte strings hashed on the way collide. -/
theorem verifyInclusion_exact (H : Hash 32) (leaves : List Bytes) (index : ℤ) (leaf : Bytes)
    (proof : List Bytes) :
    (0 ≤ index ∧ index < leaves.length ∧ leaves[index.toNat]? = some leaf ∧
        inclusionProof H leaves index = .ok proof →
      verifyInclusion H leaf index leaves.length proof (root H leaves) = true) ∧
    (verifyInclusion H leaf index leaves.length proof (root H leaves) = true →
      (0 ≤ index ∧ index < leaves.length ∧ leaves[index.toNat]? = some leaf ∧
        inclusionProof H leaves index = .ok proof) ∨
      H.Collides (inclusionHashed H leaves leaf index proof)) := by
  constructor
  · rintro ⟨hnonneg, hlt, hleaf, hproof⟩
    rw [inclusionProof, if_neg (by omega), Except.ok.injEq] at hproof
    rw [verifyInclusion, if_neg (by omega), Int.toNat_natCast, ← hproof,
      rootFromInclusion_inclusionPath hleaf]
    exact decide_eq_true rfl
  · intro h
    rw [verifyInclusion] at h
    split at h
    · cases h
    · rw [Int.toNat_natCast, decide_eq_true_eq] at h
      by_cases hQ : H.Collides (inclusionHashed H leaves leaf index proof)
      · exact .inr hQ
      · have hi := (rootFromInclusion_eq_some h).1
        obtain ⟨hleaf, rfl⟩ := path_of_rootFromInclusion hQ (by simp [inclusionHashed])
          (List.subset_append_left _ _)
          (List.subset_append_of_subset_right _ (List.subset_cons_self _ _)) h
        exact .inl ⟨by omega, by omega, hleaf, by rw [inclusionProof, if_neg (by omega)]⟩

end Sanad.Audit
