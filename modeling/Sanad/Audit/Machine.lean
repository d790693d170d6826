import Mathlib.Data.List.Induction
import Sanad.Audit.Consistency
import Sanad.Audit.Inclusion
import Sanad.Common.Except
import Sanad.Common.Loop
import Sanad.Common.MachineInt

/-! # The Merkle verifiers on machine integers

`audit/merkle.go` once more, with `int` as it is on a 64-bit machine. The sizes and the index that
the verifiers are given come from the caller, so nothing ties them to a tree that fits in memory; the
loops are run with fuel, and every answer comes with the number of hashes it took.

On sizes up to 2⁶² each function is the one over ℕ that `Sanad.Audit.Merkle` and
`Sanad.Audit.Inclusion` have, so what is proved there holds of the machine. Beyond that `lp2` shifts
its power of two out of the word and never returns.
-/

namespace Sanad.Audit.Machine

variable (H : Hash 32)

/-- `lp2` -/
def lp2 (fuel : ℕ) (n : Int64) : Option Int64 :=
  (Loop.runPure (fun k => k < n) (fun k : Int64 => k <<< 1) fuel 1).map fun k : Int64 => k >>> 1

/-- Hash a subtree's root together with its sibling, if the subtree has a root. -/
def join (node : Bytes → Bytes) (subtree : Option Bytes × ℕ) : Option Bytes × ℕ :=
  match subtree with
  | (none, hashes) => (none, hashes)
  | (some r, hashes) => (some (node r), hashes + 1)

/-- `rootFromInclusion`, and how many nodes it hashes. It takes the proof from its end: the list
given here is the proof in reverse. -/
def rootFromInclusion (fuel : ℕ) (leafHash : Bytes) (index size : Int64) (proof : List Bytes) :
    Option (Option Bytes × ℕ) :=
  if size ≤ 0 ∨ index < 0 ∨ index ≥ size then some (none, 0)
  else if size = 1 then
    if index = 0 ∧ proof = [] then some (some leafHash, 0) else some (none, 0)
  else
    match proof with
    | [] => some (none, 0)
    | last :: rest => do
      let k ← lp2 fuel size
      if index < k then
        (rootFromInclusion fuel leafHash index k rest).map (join fun left => hashNode H left last)
      else
        (rootFromInclusion fuel leafHash (index - k) (size - k) rest).map
          (join fun right => hashNode H last right)

/-- `VerifyInclusion`, and how many hashes it computes. -/
def verifyInclusion (fuel : ℕ) (leaf : Bytes) (index size : Int64) (proof : List Bytes)
    (root : Bytes) : Option (Bool × ℕ) := do
  let (got, hashes) ← rootFromInclusion H fuel (hashLeaf H leaf) index size proof.reverse
  return (got = some root, hashes + 1)

/-- The first loop of `VerifyConsistency`: `for node&1 == 1`. -/
def stripOnes (fuel : ℕ) (node last : Int64) : Option (Int64 × Int64) :=
  Loop.runPure (fun p => p.1 &&& 1 = 1) (fun p => (p.1 >>> 1, p.2 >>> 1)) fuel (node, last)

/-- A round of the second loop. -/
def climbOldRound : Int64 × Int64 × Climb → Except Climb (Int64 × Int64 × Climb)
  | (node, last, s) => do
    let s ←
      if node &&& 1 = 1 then s.step H .left
      else if node < last then s.step H .right
      else .ok s
    return (node >>> 1, last >>> 1, s)

/-- The second loop: `for node > 0`. -/
def climbOld (fuel : ℕ) (node last : Int64) (s : Climb) :
    Option (Except Climb (Int64 × Int64 × Climb)) :=
  Loop.run (fun p => 0 < p.1) (climbOldRound H) fuel (node, last, s)

/-- A round of the third loop. -/
def climbNewRound : Int64 × Climb → Except Climb (Int64 × Climb)
  | (last, s) => do
    let s ← s.step H .right
    return (last >>> 1, s)

/-- The third loop: `for last > 0`. -/
def climbNew (fuel : ℕ) (last : Int64) (s : Climb) : Option (Except Climb (Int64 × Climb)) :=
  Loop.run (fun p => 0 < p.1) (climbNewRound H) fuel (last, s)

/-- Where the climb starts: at the first proof element if the first loop has left a `node`,
otherwise at the old root. -/
def climbStart (fromProof : Bool) (proof : List Bytes) (oldRoot : Bytes) : Except Climb Climb :=
  if fromProof then
    match proof with
    | [] => .error { proof := [], fr := [], sr := [], hashed := [] }
    | c :: rest => .ok { proof := rest, fr := c, sr := c, hashed := [] }
  else .ok { proof := proof, fr := oldRoot, sr := oldRoot, hashed := [] }

/-- The loops of `VerifyConsistency`; an error is an early `return false`. -/
def consistencyRun (fuel : ℕ) (oldSize newSize : Int64) (proof : List Bytes) (oldRoot : Bytes) :
    Option (Except Climb Climb) := do
  let (node, last) ← stripOnes fuel (oldSize - 1) (newSize - 1)
  match climbStart (0 < node) proof oldRoot with
  | .error s => return .error s
  | .ok s =>
    match ← climbOld H fuel node last s with
    | .error s => return .error s
    | .ok (_, last, s) =>
      match ← climbNew H fuel last s with
      | .error s => return .error s
      | .ok (_, s) => return .ok s

/-- `VerifyConsistency`, and how many hashes it computes. -/
def verifyConsistency (fuel : ℕ) (oldSize newSize : Int64) (proof : List Bytes)
    (oldRoot newRoot : Bytes) : Option (Bool × ℕ) :=
  if oldSize < 0 ∨ newSize < 0 ∨ oldSize > newSize then some (false, 0)
  else if oldSize = newSize then some (proof.length = 0 && oldRoot = newRoot, 0)
  else if oldSize = 0 then some (proof.length = 0, 0)
  else do
    match ← consistencyRun H fuel oldSize newSize proof oldRoot with
    | .error s => return (false, s.hashed.length)
    | .ok s => return (s.fr = oldRoot && s.sr = newRoot && s.proof.length = 0, s.hashed.length)

variable {H}

/-! ## lp2 -/

/-- Up to 2⁶² the loop finds the power of two. -/
theorem lp2_ofNat {n fuel : ℕ} (h2 : 2 ≤ n) (hn : n ≤ 2 ^ 62) (hfuel : 63 ≤ fuel) :
    lp2 fuel (Int64.ofNat n) = some (Int64.ofNat (Audit.lp2 n)) := by
  have hlt := lp2_lt h2
  have hword : ∀ {a : ℕ}, a ≤ 62 → 2 ^ a < 2 ^ 63 := fun ha =>
    Nat.pow_lt_pow_right (by decide) (by omega)
  -- the states of the loop are the powers of two, as far as the first one that is not below `n`
  have hrun : Loop.runPure (fun k => decide (k < Int64.ofNat n)) (fun k => k <<< 1) fuel 1 =
      some (Int64.ofNat (2 * Audit.lp2 n)) := by
    refine Loop.runPure_eq (fun a => Int64.ofNat (2 ^ a)) (fun a => a ≤ 62 ∧ (1 ≤ a ∨ 2 ^ a < n))
      (fun a => 62 - a) (fun a => Int64.ofNat (2 * lp2Loop n (2 ^ a))) ?_ ?_
      (a := 0) ⟨by decide, .inr (by omega)⟩ hfuel
    · rintro a ⟨ha, hstart⟩ hcond
      rw [decide_eq_false_iff_not, Int64.ofNat_lt_iff_lt (hword ha) (by omega)] at hcond
      obtain ⟨b, rfl⟩ : ∃ b, a = b + 1 := ⟨a - 1, by omega⟩
      rw [lp2Loop, if_neg (by omega), Nat.pow_succ]
      congr 1
      omega
    · rintro a ⟨ha, -⟩ hcond
      rw [decide_eq_true_eq, Int64.ofNat_lt_iff_lt (hword ha) (by omega)] at hcond
      have hnext : a + 1 ≤ 62 := by
        by_contra hge
        obtain rfl : a = 62 := by omega
        omega
      refine ⟨a + 1, ?_, ⟨hnext, .inl (by omega)⟩, by omega, ?_⟩
      · rw [Int64.ofNat_shiftLeft_one, Nat.pow_succ, Nat.mul_comm]
      · conv_lhs => rw [lp2Loop, if_pos ⟨Nat.two_pow_pos a, hcond⟩, ← Nat.pow_succ']
  rw [lp2, hrun, Option.map_some, Int64.ofNat_shiftRight_one (by omega),
    Nat.mul_div_cancel_left _ (by decide)]

/-- The powers of two strictly below a number. -/
def powersBelow (n : ℤ) : Set ℤ := {m | (∃ a : ℕ, m = 2 ^ a) ∧ m < n}

theorem isGreatest_lp2 {n : ℕ} (h2 : 2 ≤ n) : IsGreatest (powersBelow n) (Audit.lp2 n) := by
  rw [lp2_eq_split h2]
  have hmem : (HashTree.split n : ℤ) ∈ powersBelow n :=
    ⟨⟨Nat.log 2 (n - 1), by simp [HashTree.split]⟩, by exact_mod_cast HashTree.split_lt h2⟩
  refine ⟨hmem, ?_⟩
  rintro m ⟨⟨a, rfl⟩, hlt⟩
  have hlt : 2 ^ a < n := by exact_mod_cast hlt
  have hle : 2 ^ a ≤ HashTree.split n := by
    have htwo := HashTree.le_two_mul_split h2
    rw [HashTree.split] at htwo ⊢
    refine Nat.pow_le_pow_right (by decide) (not_lt.mp fun hlog => ?_)
    have := Nat.pow_le_pow_right (n := 2) (by decide) hlog
    rw [Nat.succ_eq_add_one, Nat.pow_succ'] at this
    omega
  exact_mod_cast hle

/-- Beyond 2⁶² the power of two is shifted out of the word, and what is left stays below `n`. -/
theorem lp2_eq_none {n : ℕ} (hn : 2 ^ 62 < n) (hword : n < 2 ^ 63) (fuel : ℕ) :
    lp2 fuel (Int64.ofNat n) = none := by
  have hpow : ∀ {a : ℕ}, a ≤ 62 → 2 ^ a ≤ 2 ^ 62 := fun ha => Nat.pow_le_pow_right (by decide) ha
  have hrun : Loop.runPure (fun k => decide (k < Int64.ofNat n)) (fun k => k <<< 1) fuel 1 =
      none := by
    refine Loop.runPure_eq_none
      (fun k => k = 0 ∨ k = Int64.minValue ∨ ∃ a ≤ 62, k = Int64.ofNat (2 ^ a)) ?_
      (.inr (.inr ⟨0, by decide, rfl⟩)) fuel
    have hpos : 0 < Int64.ofNat n := (Int64.ofNat_pos_iff hword).mpr (by omega)
    rintro k (rfl | rfl | ⟨a, ha, rfl⟩)
    · exact ⟨decide_eq_true hpos, .inl (by decide)⟩
    · exact ⟨decide_eq_true (Int64.lt_trans (by decide) hpos), .inl (by decide)⟩
    · have hlt : Int64.ofNat (2 ^ a) < Int64.ofNat n := by
        have := hpow ha
        rw [Int64.ofNat_lt_iff_lt (by omega) hword]
        omega
      refine ⟨decide_eq_true hlt, .inr ?_⟩
      rw [Int64.ofNat_shiftLeft_one, ← Nat.pow_succ']
      by_cases hlast : a = 62
      · subst hlast
        exact .inl (by decide)
      · exact .inr ⟨a + 1, by omega, rfl⟩
  rw [lp2, hrun, Option.map_none]

/-- `lp2` does what its comment says exactly up to 2⁶². -/
theorem lp2_returns_iff {n : Int64} (h2 : 2 ≤ n) :
    Loop.Returns (fun fuel => lp2 fuel n) (fun k => IsGreatest (powersBelow n.toInt) k.toInt) ↔
      n.toInt ≤ 2 ^ 62 := by
  obtain ⟨m, hm, rfl⟩ := Int64.exists_eq_ofNat (Int64.le_trans (by decide) h2)
  have h2 : 2 ≤ m := (Int64.ofNat_le_iff_le (a := 2) (by decide) hm).mp h2
  rw [Int64.toInt_ofNat_of_lt hm]
  constructor
  · intro h
    by_contra hlarge
    exact Loop.not_returns (lp2_eq_none (by omega) hm) _ h
  · intro hle
    have hlt := lp2_lt h2
    refine ⟨Int64.ofNat (Audit.lp2 m), ?_, 63, fun fuel hfuel => lp2_ofNat h2 (by omega) hfuel⟩
    dsimp only
    rw [Int64.toInt_ofNat_of_lt (by omega)]
    exact isGreatest_lp2 h2

/-! ## VerifyInclusion -/

/-- The range check, on values that are represented. -/
theorem outOfRange_ofNat {index size : ℕ} (hindex : index < 2 ^ 63) (hsize : size < 2 ^ 63) :
    (Int64.ofNat size ≤ 0 ∨ Int64.ofNat index < 0 ∨ Int64.ofNat index ≥ Int64.ofNat size) ↔
      size = 0 ∨ index ≥ size := by
  rw [ge_iff_le, Int64.ofNat_le_iff_le hsize hindex, show (0 : Int64) = Int64.ofNat 0 from rfl,
    Int64.ofNat_le_iff_le hsize (by decide), Int64.ofNat_lt_iff_lt hindex (by decide)]
  omega

/-- One step of the verifier in a tree that is split, once `lp2` has returned. -/
theorem rootFromInclusion_cons {leafHash last : Bytes} {index size fuel : ℕ} {rest : List Bytes}
    (hindex : index < size) (h2 : 2 ≤ size) (hsize : size ≤ 2 ^ 62) (hfuel : 63 ≤ fuel) :
    rootFromInclusion H fuel leafHash (Int64.ofNat index) (Int64.ofNat size) (last :: rest) =
      if index < Audit.lp2 size then
        (rootFromInclusion H fuel leafHash (Int64.ofNat index) (Int64.ofNat (Audit.lp2 size))
          rest).map (join fun left => hashNode H left last)
      else
        (rootFromInclusion H fuel leafHash (Int64.ofNat (index - Audit.lp2 size))
          (Int64.ofNat (size - Audit.lp2 size)) rest).map
          (join fun right => hashNode H last right) := by
  have hlt := lp2_lt h2
  rw [rootFromInclusion, if_neg (by rw [outOfRange_ofNat (by omega) (by omega)]; omega),
    if_neg (Int64.ofNat_ne_one h2 (by omega))]
  simp only [lp2_ofNat h2 hsize hfuel, Option.bind_eq_bind, Option.bind_some,
    Int64.ofNat_lt_iff_lt (show index < 2 ^ 63 by omega) (show Audit.lp2 size < 2 ^ 63 by omega)]
  by_cases hside : index < Audit.lp2 size
  · rw [if_pos hside, if_pos hside]
  · rw [if_neg hside, if_neg hside, Int64.ofNat_sub _ _ (by omega), Int64.ofNat_sub _ _ (by omega)]

/-- What the recursion returns without splitting the tree. -/
theorem rootFromInclusion_ofNat_of_lt_two {leafHash : Bytes} {index size fuel : ℕ}
    {proof : List Bytes} (hindex : index < 2 ^ 63) (hsize : size < 2 ^ 63)
    (h : size < 2 ∨ index ≥ size) :
    rootFromInclusion H fuel leafHash (Int64.ofNat index) (Int64.ofNat size) proof.reverse =
      some (Audit.rootFromInclusion H leafHash index size proof,
        (rootFromInclusionHashed H leafHash index size proof).length) := by
  have hguard := outOfRange_ofNat hindex hsize
  rw [rootFromInclusion.eq_def, Audit.rootFromInclusion, rootFromInclusionHashed, if_pos h]
  by_cases hrange : size = 0 ∨ index ≥ size
  · rw [if_pos (hguard.mpr hrange), if_pos hrange]
    rfl
  · rw [if_neg (mt hguard.mp hrange), if_neg hrange]
    obtain rfl : size = 1 := by omega
    obtain rfl : index = 0 := by omega
    rw [if_pos (by decide), if_pos rfl]
    by_cases hempty : proof = []
    · rw [if_pos ⟨by decide, by rw [hempty]; rfl⟩, if_pos ⟨rfl, hempty⟩]
      rfl
    · rw [if_neg fun h => hempty (List.reverse_eq_nil_iff.mp h.2), if_neg fun h => hempty h.2]
      rfl

/-- Joining a sibling, over ℕ: one more root, and one more string hashed if there was one. -/
theorem join_eq (node input : Bytes → Bytes) (r : Option Bytes) (hashed : List Bytes) :
    join node (r, hashed.length) = (r.map node, (hashed ++ (r.map input).toList).length) := by
  cases r <;> simp [join]

/-- Without a proof, a tree that would be split has no root. -/
theorem rootFromInclusion_nil {leafHash : Bytes} {index size : Int64} (fuel : ℕ)
    (hone : size ≠ 1) : rootFromInclusion H fuel leafHash index size [] = some (none, 0) := by
  rw [rootFromInclusion, if_neg hone]
  split <;> rfl

/-- Up to 2⁶² the recursion is the one over ℕ. -/
theorem rootFromInclusion_ofNat {leafHash : Bytes} {index size fuel : ℕ} {proof : List Bytes}
    (hindex : index < 2 ^ 63) (hsize : size ≤ 2 ^ 62) (hfuel : 63 ≤ fuel) :
    rootFromInclusion H fuel leafHash (Int64.ofNat index) (Int64.ofNat size) proof.reverse =
      some (Audit.rootFromInclusion H leafHash index size proof,
        (rootFromInclusionHashed H leafHash index size proof).length) := by
  induction proof using List.reverseRecOn generalizing index size with
  | nil =>
      by_cases h : size < 2 ∨ index ≥ size
      · exact rootFromInclusion_ofNat_of_lt_two hindex (by omega) h
      · rw [List.reverse_nil,
          rootFromInclusion_nil fuel (Int64.ofNat_ne_one (by omega) (by omega)),
          Audit.rootFromInclusion, if_neg (by omega), if_neg (by omega), rootFromInclusionHashed,
          if_neg h]
        rfl
  | append_singleton proof last ih =>
      by_cases h : size < 2 ∨ index ≥ size
      · exact rootFromInclusion_ofNat_of_lt_two hindex (by omega) h
      · have hlt := lp2_lt (n := size) (by omega)
        rw [List.reverse_append, List.reverse_singleton, List.singleton_append,
          rootFromInclusion_cons (by omega) (by omega) hsize hfuel,
          rootFromInclusion_concat (by omega) (by omega),
          rootFromInclusionHashed_concat (by omega) (by omega)]
        by_cases hside : index < Audit.lp2 size
        · rw [if_pos hside, if_pos hside, if_pos hside, ih hindex (by omega), Option.map_some,
            join_eq _ fun left => HashTree.nodeInput left last]
        · rw [if_neg hside, if_neg hside, if_neg hside, ih (by omega) (by omega), Option.map_some,
            join_eq _ fun right => HashTree.nodeInput last right]

/-- A tree of more than 2⁶² leaves that would be split keeps the verifier in `lp2` for ever. -/
theorem rootFromInclusion_eq_none {leafHash last : Bytes} {index size : ℕ} {rest : List Bytes}
    (hindex : index < size) (hlarge : 2 ^ 62 < size) (hsize : size < 2 ^ 63) (fuel : ℕ) :
    rootFromInclusion H fuel leafHash (Int64.ofNat index) (Int64.ofNat size) (last :: rest) =
      none := by
  rw [rootFromInclusion, if_neg (by rw [outOfRange_ofNat (by omega) hsize]; omega),
    if_neg (Int64.ofNat_ne_one (by omega) hsize), lp2_eq_none hlarge hsize]
  rfl

/-- Each element of a proof is hashed at most once. -/
theorem length_rootFromInclusionHashed_le {leafHash : Bytes} {index size : ℕ} {proof : List Bytes} :
    (rootFromInclusionHashed H leafHash index size proof).length ≤ proof.length := by
  induction proof using List.reverseRecOn generalizing index size with
  | nil =>
      rw [rootFromInclusionHashed]
      split <;> simp
  | append_singleton proof last ih =>
      by_cases h : size < 2 ∨ index ≥ size
      · rw [rootFromInclusionHashed, if_pos h]
        simp
      · have htoList : ∀ o : Option Bytes, o.toList.length ≤ 1 := fun o => by cases o <;> simp
        rw [rootFromInclusionHashed_concat (by omega) (by omega)]
        split
        all_goals
          rw [List.length_append, List.length_append, List.length_singleton]
          exact Nat.add_le_add ih (htoList _)

/-- An index outside of the tree is refused at once. -/
theorem verifyInclusion_of_outOfRange {leaf root : Bytes} {index size : Int64} {proof : List Bytes}
    (h : size ≤ 0 ∨ index < 0 ∨ index ≥ size) (fuel : ℕ) :
    verifyInclusion H fuel leaf index size proof root = some (false, 1) := by
  rw [verifyInclusion, rootFromInclusion.eq_def, if_pos h]
  rfl

/-- Up to 2⁶² the machine's verifier is the one over ℕ, and hashes the leaf and at most the elements
of the proof. -/
theorem verifyInclusion_eq {size : Int64} (hsize : size.toInt ≤ 2 ^ 62) (leaf root : Bytes)
    (index : Int64) (proof : List Bytes) :
    ∃ hashes ≤ proof.length + 1, ∀ fuel, 63 ≤ fuel →
      verifyInclusion H fuel leaf index size proof root =
        some (Audit.verifyInclusion H leaf index.toInt size.toInt proof root, hashes) := by
  by_cases hneg : index < 0 ∨ size < 0
  · have hguard : size ≤ 0 ∨ index < 0 ∨ index ≥ size :=
      hneg.elim (fun h => .inr (.inl h)) fun h => .inl (Int64.le_of_lt h)
    rw [Int64.lt_zero_iff, Int64.lt_zero_iff] at hneg
    refine ⟨1, by omega, fun fuel _ => ?_⟩
    rw [verifyInclusion_of_outOfRange hguard, Audit.verifyInclusion, if_pos hneg]
  · rw [not_or, Int64.not_lt, Int64.not_lt] at hneg
    obtain ⟨i, hi, rfl⟩ := Int64.exists_eq_ofNat hneg.1
    obtain ⟨n, hn, rfl⟩ := Int64.exists_eq_ofNat hneg.2
    rw [Int64.toInt_ofNat_of_lt hn] at hsize
    refine ⟨(rootFromInclusionHashed H (hashLeaf H leaf) i n proof).length + 1,
      Nat.succ_le_succ length_rootFromInclusionHashed_le, fun fuel hfuel => ?_⟩
    rw [verifyInclusion, rootFromInclusion_ofNat hi (by omega) hfuel, Audit.verifyInclusion,
      Int64.toInt_ofNat_of_lt hi, Int64.toInt_ofNat_of_lt hn, if_neg (by omega)]
    rfl

/-- A proof without elements is refused before the tree is split. -/
theorem verifyInclusion_nil {leaf root : Bytes} {index size : Int64} (h : 2 ^ 62 < size.toInt)
    (fuel : ℕ) : verifyInclusion H fuel leaf index size [] root = some (false, 1) := by
  have hone : size ≠ 1 := by
    rintro rfl
    rw [Int64.toInt_one] at h
    omega
  rw [verifyInclusion, List.reverse_nil, rootFromInclusion_nil fuel hone]
  rfl

theorem verifyInclusion_eq_none {leaf root : Bytes} {index size : Int64} {proof : List Bytes}
    (hlarge : 2 ^ 62 < size.toInt) (hindex : 0 ≤ index) (hlt : index < size) (hproof : proof ≠ [])
    (fuel : ℕ) : verifyInclusion H fuel leaf index size proof root = none := by
  obtain ⟨i, hi, rfl⟩ := Int64.exists_eq_ofNat hindex
  obtain ⟨n, hn, rfl⟩ := Int64.exists_eq_ofNat_of_toInt (x := size) (by omega)
  rw [Int64.toInt_ofNat_of_lt hn] at hlarge
  rw [Int64.ofNat_lt_iff_lt hi hn] at hlt
  obtain ⟨last, rest, hrev⟩ := List.exists_cons_of_ne_nil (mt List.reverse_eq_nil_iff.mp hproof)
  rw [verifyInclusion, hrev, rootFromInclusion_eq_none hlt (by omega) hn]
  rfl

/-! ## VerifyConsistency -/

/-- Two indices as the machine holds them. -/
def indices (p : ℕ × ℕ) : Int64 × Int64 := (Int64.ofNat p.1, Int64.ofNat p.2)

theorem size_lt_of_lt {n : ℕ} (h : n < 2 ^ 63) {fuel : ℕ} (hfuel : 64 ≤ fuel) : n.size < fuel := by
  have := Nat.size_le.mpr h
  omega

theorem stripOnes_ofNat {node last fuel : ℕ} (hnode : node < 2 ^ 63) (hlast : last < 2 ^ 63)
    (hfuel : 64 ≤ fuel) :
    stripOnes fuel (Int64.ofNat node) (Int64.ofNat last) =
      some (indices (Audit.stripOnes node last)) := by
  refine Loop.runPure_eq indices (fun p => p.1 < 2 ^ 63 ∧ p.2 < 2 ^ 63) (fun p => p.1.size)
    (fun p => indices (Audit.stripOnes p.1 p.2)) ?_ ?_ (a := (node, last)) ⟨hnode, hlast⟩
    (size_lt_of_lt hnode hfuel)
  · rintro ⟨n, l⟩ - hcond
    rw [decide_eq_false_iff_not, indices, Int64.ofNat_and_one_eq_one_iff] at hcond
    rw [Audit.stripOnes, if_neg hcond]
  · rintro ⟨n, l⟩ ⟨hn, hl⟩ hcond
    rw [decide_eq_true_eq, indices, Int64.ofNat_and_one_eq_one_iff] at hcond
    refine ⟨(n / 2, l / 2), ?_, ⟨by omega, by omega⟩, Nat.size_div_two_lt (by omega), ?_⟩
    · rw [indices, Int64.ofNat_shiftRight_one hn, Int64.ofNat_shiftRight_one hl]
      rfl
    · conv_lhs => rw [Audit.stripOnes, if_pos hcond]

/-- The state of the second loop as the machine holds it. -/
def oldState (p : ℕ × ℕ × Climb) : Int64 × Int64 × Climb :=
  (Int64.ofNat p.1, Int64.ofNat p.2.1, p.2.2)

/-- What a round of the second loop does to the roots. -/
def levelStep (H : Hash 32) (node last : ℕ) (s : Climb) : Except Climb Climb :=
  if node % 2 = 1 then s.step H .left else if node < last then s.step H .right else .ok s

theorem climbOld_pos {node last : ℕ} (h : 0 < node) (s : Climb) :
    Audit.climbOld H node last s =
      levelStep H node last s >>= fun t => Audit.climbOld H (node / 2) (last / 2) t := by
  rw [Audit.climbOld, if_neg (by omega), levelStep]
  split
  · rfl
  · split <;> rfl

theorem climbOldRound_ofNat {node last : ℕ} (hnode : node < 2 ^ 63) (hlast : last < 2 ^ 63)
    (s : Climb) :
    climbOldRound H (oldState (node, last, s)) =
      (levelStep H node last s).map fun t => oldState (node / 2, last / 2, t) := by
  simp only [oldState, climbOldRound, levelStep, Int64.ofNat_and_one_eq_one_iff,
    Int64.ofNat_lt_iff_lt hnode hlast, Int64.ofNat_shiftRight_one hnode,
    Int64.ofNat_shiftRight_one hlast]
  split
  · cases s.step H .left <;> rfl
  · split
    · cases s.step H .right <;> rfl
    · rfl

/-- The second loop has the equation of the one over ℕ. -/
theorem climbOld_solves :
    Loop.Solves (fun p => 0 < p.1) (climbOldRound H) oldState
      (fun p => p.1 < 2 ^ 63 ∧ p.2.1 < 2 ^ 63) (fun p => p.1.size)
      fun p => (Audit.climbOld H p.1 p.2.1 p.2.2).map fun q => oldState (0, q) where
  stop := by
    rintro ⟨n, l, s⟩ ⟨hn, hl⟩ hcond
    rw [decide_eq_false_iff_not, oldState, Int64.ofNat_pos_iff hn] at hcond
    obtain rfl : n = 0 := by omega
    rw [Audit.climbOld, if_pos rfl]
    rfl
  next := by
    rintro ⟨n, l, s⟩ ⟨hn, hl⟩ hcond
    rw [decide_eq_true_eq, oldState, Int64.ofNat_pos_iff hn] at hcond
    rw [climbOldRound_ofNat hn hl, climbOld_pos hcond]
    change l < 2 ^ 63 at hl
    cases levelStep H n l s with
    | error t => exact .inl ⟨t, rfl, rfl⟩
    | ok t =>
        exact .inr ⟨(n / 2, l / 2, t), rfl, ⟨by dsimp only; omega, by dsimp only; omega⟩,
          Nat.size_div_two_lt hcond, rfl⟩

theorem climbOld_ofNat {node last fuel : ℕ} (hnode : node < 2 ^ 63) (hlast : last < 2 ^ 63)
    (hfuel : 64 ≤ fuel) (s : Climb) :
    climbOld H fuel (Int64.ofNat node) (Int64.ofNat last) s =
      some ((Audit.climbOld H node last s).map fun q => oldState (0, q)) :=
  climbOld_solves.run_eq (a := (node, last, s)) ⟨hnode, hlast⟩ (size_lt_of_lt hnode hfuel)

/-- The third loop has the equation of the one over ℕ. -/
theorem climbNew_solves :
    Loop.Solves (fun p => 0 < p.1) (climbNewRound H) (fun p : ℕ × Climb => (Int64.ofNat p.1, p.2))
      (fun p => p.1 < 2 ^ 63) (fun p => p.1.size)
      fun p => (Audit.climbNew H p.1 p.2).map fun s => (0, s) where
  stop := by
    rintro ⟨l, s⟩ hl hcond
    rw [decide_eq_false_iff_not, Int64.ofNat_pos_iff hl] at hcond
    obtain rfl : l = 0 := by omega
    rw [Audit.climbNew, if_pos rfl]
    rfl
  next := by
    rintro ⟨l, s⟩ hl hcond
    rw [decide_eq_true_eq, Int64.ofNat_pos_iff hl] at hcond
    simp only [climbNewRound, Int64.ofNat_shiftRight_one hl]
    rw [Audit.climbNew, if_neg (by omega)]
    cases hround : s.step H .right with
    | error t => exact .inl ⟨t, rfl, rfl⟩
    | ok t => exact .inr ⟨(l / 2, t), rfl, by omega, Nat.size_div_two_lt (by omega), rfl⟩

theorem climbNew_ofNat {last fuel : ℕ} (hlast : last < 2 ^ 63) (hfuel : 64 ≤ fuel) (s : Climb) :
    climbNew H fuel (Int64.ofNat last) s =
      some ((Audit.climbNew H last s).map fun s => (0, s)) :=
  climbNew_solves.run_eq (a := (last, s)) hlast (size_lt_of_lt hlast hfuel)

theorem stripOnes_lt {node last : ℕ} {b : ℕ} (hnode : node < b) (hlast : last < b) :
    (Audit.stripOnes node last).1 < b ∧ (Audit.stripOnes node last).2 < b := by
  fun_induction Audit.stripOnes node last with
  | case1 node last hodd ih => exact ih (by omega) (by omega)
  | case2 node last heven => exact ⟨hnode, hlast⟩

theorem climbOld_lt {node last l : ℕ} {s t : Climb} {b : ℕ} (hlast : last < b)
    (h : Audit.climbOld H node last s = .ok (l, t)) : l < b := by
  induction node using Nat.strongRecOn generalizing last s with
  | ind node ih =>
    by_cases hpos : 0 < node
    · rw [climbOld_pos hpos, Except.bind_eq_ok_iff] at h
      obtain ⟨u, -, h⟩ := h
      exact ih (node / 2) (by omega) (by omega) h
    · rw [Audit.climbOld, if_pos (by omega)] at h
      obtain ⟨rfl, -⟩ := Prod.mk.inj (Except.ok.inj h)
      exact hlast

/-- The loops over ℕ, from where the climb starts. -/
theorem consistencyRun_eq (m n : ℕ) (proof : List Bytes) (oldRoot : Bytes) :
    Audit.consistencyRun H m n proof oldRoot =
      climbStart (0 < (Audit.stripOnes (m - 1) (n - 1)).1) proof oldRoot >>= fun s =>
        Audit.climbOld H (Audit.stripOnes (m - 1) (n - 1)).1
          (Audit.stripOnes (m - 1) (n - 1)).2 s >>= fun p => Audit.climbNew H p.1 p.2 := by
  rw [Audit.consistencyRun]
  simp only [climbStart, decide_eq_true_eq]
  split
  · cases proof <;> rfl
  · rfl

theorem consistencyRun_ofNat {m n fuel : ℕ} (hm : 1 ≤ m) (hmn : m < n) (hn : n < 2 ^ 63)
    (hfuel : 64 ≤ fuel) (proof : List Bytes) (oldRoot : Bytes) :
    consistencyRun H fuel (Int64.ofNat m) (Int64.ofNat n) proof oldRoot =
      some (Audit.consistencyRun H m n proof oldRoot) := by
  have hold : Int64.ofNat m - 1 = Int64.ofNat (m - 1) := (Int64.ofNat_sub m 1 hm).symm
  have hnew : Int64.ofNat n - 1 = Int64.ofNat (n - 1) := (Int64.ofNat_sub n 1 (by omega)).symm
  have hm' : m - 1 < 2 ^ 63 := by omega
  have hn' : n - 1 < 2 ^ 63 := by omega
  rw [consistencyRun, hold, hnew, stripOnes_ofNat hm' hn' hfuel, consistencyRun_eq]
  obtain ⟨hnode, hlast⟩ := stripOnes_lt hm' hn'
  generalize Audit.stripOnes (m - 1) (n - 1) = p at hnode hlast ⊢
  obtain ⟨node, last⟩ := p
  simp only [indices, Int64.ofNat_pos_iff hnode, Option.bind_eq_bind, Option.bind_some]
  cases climbStart (0 < node) proof oldRoot with
  | error s => rfl
  | ok s =>
      simp only [climbOld_ofNat hnode hlast hfuel, Option.bind_some]
      cases hclimb : Audit.climbOld H node last s with
      | error t => simp [Except.map, bind, Except.bind, hclimb]
      | ok p =>
          obtain ⟨last', t⟩ := p
          simp only [Except.map, oldState, climbNew_ofNat (climbOld_lt hlast hclimb) hfuel,
            Option.bind_some]
          cases hclimb' : Audit.climbNew H last' t <;>
            simp [bind, Except.bind, hclimb, hclimb']

/-- The climb at the point where the verifier returns. -/
def settled : Except Climb Climb → Climb
  | .ok s => s
  | .error s => s

/-- The hashes computed so far and those that the rest of the proof may still cost. -/
def work (s : Climb) : ℕ := s.hashed.length + 2 * s.proof.length

theorem work_step_le (s : Climb) (o : HashTree.Side) : work (settled (s.step H o)) ≤ work s := by
  obtain ⟨proof, fr, sr, hashed⟩ := s
  cases o <;> cases proof <;> simp [Climb.step, settled, work] <;> omega

theorem work_steps_le (os : List HashTree.Side) (s : Climb) :
    work (settled (s.steps H os)) ≤ work s := by
  induction os generalizing s with
  | nil => exact Nat.le_refl _
  | cons o os ih =>
      have hstep := work_step_le (H := H) s o
      rw [Climb.steps_cons]
      cases hs : s.step H o with
      | error t =>
          rw [hs] at hstep
          exact hstep
      | ok t =>
          rw [hs] at hstep
          exact (ih t).trans hstep

theorem work_climbStart_le (fromProof : Bool) (proof : List Bytes) (oldRoot : Bytes) :
    work (settled (climbStart fromProof proof oldRoot)) ≤ 2 * proof.length := by
  cases fromProof <;> cases proof <;> simp [climbStart, settled, work]

/-- A proof costs at most two hashes per element. -/
theorem length_hashed_consistencyRun_le {m n : ℕ} (hmn : m ≤ n) (proof : List Bytes)
    (oldRoot : Bytes) :
    (settled (Audit.consistencyRun H m n proof oldRoot)).hashed.length ≤ 2 * proof.length := by
  have hloops := climbOld_climbNew (H := H) (stripOnes_le (show m - 1 ≤ n - 1 by omega))
  have hwork : ∀ s, work (settled
      (Audit.climbOld H (Audit.stripOnes (m - 1) (n - 1)).1
        (Audit.stripOnes (m - 1) (n - 1)).2 s >>= fun p => Audit.climbNew H p.1 p.2)) ≤
      work s := by
    intro s
    rw [hloops]
    exact work_steps_le _ s
  have hle : ∀ s : Climb, s.hashed.length ≤ work s := fun s => Nat.le_add_right _ _
  have hstart := work_climbStart_le (0 < (Audit.stripOnes (m - 1) (n - 1)).1) proof oldRoot
  rw [consistencyRun_eq]
  cases hs : climbStart (0 < (Audit.stripOnes (m - 1) (n - 1)).1) proof oldRoot with
  | error s =>
      rw [hs] at hstart
      exact (hle s).trans hstart
  | ok s =>
      rw [hs] at hstart
      exact (hle _).trans ((hwork s).trans hstart)

theorem length_verifyConsistencyHashed_le (oldSize newSize : ℤ) (proof : List Bytes)
    (oldRoot : Bytes) :
    (verifyConsistencyHashed H oldSize newSize proof oldRoot).length ≤ 2 * proof.length := by
  rw [verifyConsistencyHashed]
  split
  · next h =>
      have hle := length_hashed_consistencyRun_le (H := H) (m := oldSize.toNat) (n := newSize.toNat)
        (by omega) proof oldRoot
      cases hrun : Audit.consistencyRun H oldSize.toNat newSize.toNat proof oldRoot <;>
        rwa [hrun] at hle
  · exact Nat.zero_le _

/-- The machine's verifier is the one over ℤ, for all sizes. -/
theorem verifyConsistency_eq {oldSize newSize : Int64} {proof : List Bytes}
    {oldRoot newRoot : Bytes} {fuel : ℕ} (hfuel : 64 ≤ fuel) :
    verifyConsistency H fuel oldSize newSize proof oldRoot newRoot =
      some (Audit.verifyConsistency H oldSize.toInt newSize.toInt proof oldRoot newRoot,
        (verifyConsistencyHashed H oldSize.toInt newSize.toInt proof oldRoot).length) := by
  have hguard : (oldSize < 0 ∨ newSize < 0 ∨ oldSize > newSize) ↔
      (oldSize.toInt < 0 ∨ newSize.toInt < 0 ∨ oldSize.toInt > newSize.toInt) := by
    rw [Int64.lt_zero_iff, Int64.lt_zero_iff, gt_iff_lt, Int64.lt_iff_toInt_lt]
  have hzero : oldSize = 0 ↔ oldSize.toInt = 0 := Int64.toInt_inj.symm
  rw [verifyConsistency, Audit.verifyConsistency, verifyConsistencyHashed]
  simp only [hguard, hzero, ← Int64.toInt_inj (x := oldSize) (y := newSize)]
  split
  · rw [if_neg (by omega)]
    rfl
  split
  · rw [if_neg (by omega)]
    rfl
  split
  · rw [if_neg (by omega)]
    rfl
  next hrange hne hpos =>
  rw [if_pos (by omega)]
  obtain ⟨m, hm, rfl⟩ := Int64.exists_eq_ofNat_of_toInt (x := oldSize) (by omega)
  obtain ⟨n, hn, rfl⟩ := Int64.exists_eq_ofNat_of_toInt (x := newSize) (by omega)
  rw [Int64.toInt_ofNat_of_lt hm, Int64.toInt_ofNat_of_lt hn] at *
  rw [consistencyRun_ofNat (by omega) (by omega) hn hfuel, Int.toNat_natCast, Int.toNat_natCast]
  cases Audit.consistencyRun H m n proof oldRoot <;> rfl

/-! ## Hostile sizes -/

/-- What the verifiers do with any sizes. `VerifyConsistency` always returns, after at most two
hashes per proof element. `VerifyInclusion` returns, after at most one hash per element and one for
the leaf, exactly when it does not reach `lp2` with a size above 2⁶²; and `lp2` returns the largest
power of two below its argument exactly up to 2⁶². -/
theorem verifiers_return_iff (H : Hash 32) :
    (∀ leaf index size proof root,
      Loop.Returns (fun fuel => verifyInclusion H fuel leaf index size proof root)
          (fun r => r.2 ≤ proof.length + 1) ↔
        size.toInt ≤ 2 ^ 62 ∨ index < 0 ∨ index ≥ size ∨ proof = []) ∧
    (∀ oldSize newSize proof oldRoot newRoot,
      Loop.Returns (fun fuel => verifyConsistency H fuel oldSize newSize proof oldRoot newRoot)
        fun r => r.2 ≤ 2 * proof.length) ∧
    ∀ n : Int64, 2 ≤ n →
      (Loop.Returns (fun fuel => lp2 fuel n) (fun k => IsGreatest (powersBelow n.toInt) k.toInt) ↔
        n.toInt ≤ 2 ^ 62) := by
  refine ⟨fun leaf index size proof root => ⟨fun h => ?_, fun h => ?_⟩,
    fun oldSize newSize proof oldRoot newRoot => ?_, fun n h2 => lp2_returns_iff h2⟩
  · by_contra hcond
    simp only [not_or, not_le, ge_iff_le, Int64.not_lt, Int64.not_le] at hcond
    obtain ⟨hlarge, hindex, hlt, hproof⟩ := hcond
    exact Loop.not_returns (verifyInclusion_eq_none hlarge hindex hlt hproof) _ h
  · by_cases hsize : size.toInt ≤ 2 ^ 62
    · obtain ⟨hashes, hle, hrun⟩ := verifyInclusion_eq (H := H) hsize leaf root index proof
      exact ⟨_, hle, 63, hrun⟩
    · refine ⟨(false, 1), Nat.succ_le_succ (Nat.zero_le _), 0, fun fuel _ => ?_⟩
      rcases h with h | h | h | rfl
      · exact absurd h hsize
      · exact verifyInclusion_of_outOfRange (.inr (.inl h)) fuel
      · exact verifyInclusion_of_outOfRange (.inr (.inr h)) fuel
      · exact verifyInclusion_nil (not_le.mp hsize) fuel
  · exact ⟨_, length_verifyConsistencyHashed_le _ _ _ _, 64, fun _ => verifyConsistency_eq⟩

/-- The limit itself is within reach, and the next size is not. -/
theorem verifiers_return_at_limit :
    Loop.Returns
        (fun fuel => verifyInclusion (.checksum 32) fuel [] 0 (Int64.ofNat (2 ^ 62)) [[]] [])
        (fun r => r.2 ≤ 2) ∧
      ¬ Loop.Returns
        (fun fuel => verifyInclusion (.checksum 32) fuel [] 0 (Int64.ofNat (2 ^ 62 + 1)) [[]] [])
        (fun r => r.2 ≤ 2) ∧
      Loop.Returns (fun fuel => lp2 fuel (Int64.ofNat (2 ^ 62)))
        fun k => IsGreatest (powersBelow (Int64.ofNat (2 ^ 62)).toInt) k.toInt := by
  obtain ⟨hinclusion, -, hlp2⟩ := verifiers_return_iff (.checksum 32)
  refine ⟨(hinclusion [] 0 _ [[]] []).mpr (by decide), ?_, (hlp2 _ (by decide)).mpr (by decide)⟩
  exact mt (hinclusion [] 0 _ [[]] []).mp (by decide)

/-- One proof element is enough to keep the verifier from returning. -/
theorem verifyInclusion_hangs :
    ∃ (index size : Int64) (proof : List Bytes), ∀ (H : Hash 32) (leaf root : Bytes) (fuel : ℕ),
      verifyInclusion H fuel leaf index size proof root = none ∧ lp2 fuel size = none := by
  refine ⟨0, Int64.ofNat (2 ^ 62 + 1), [[]], fun H leaf root fuel => ⟨?_, ?_⟩⟩
  · exact verifyInclusion_eq_none (by decide) (by decide) (by decide) (by simp) fuel
  · exact lp2_eq_none (by decide) (by decide) fuel

end Sanad.Audit.Machine
