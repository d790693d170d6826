import Sanad.Audit.Merkle

/-! # Consistency proofs of the audit log

`VerifyConsistency` strips the trailing ones of `oldSize - 1` and then shifts both indices to zero,
taking a proof element at each level that has a sibling. Its loops are one climb along the path that
joins the old tree to the new one (`climb_of_verifyConsistency`), and `subproof` lists the siblings of
that path (`subproof_eq`). Soundness and completeness of the verifier follow from those of the
climb.
-/

namespace Sanad.Audit

open HashTree (Side path climb climbInputs)

variable {H : Hash 32}

/-! ## The loops as a climb -/

variable (H) in
/-- The steps of the verifier along a list of sides. -/
def Climb.steps (os : List Side) (s : Climb) : Except Climb Climb :=
  os.foldlM (fun s o => s.step H o) s

theorem Climb.steps_cons (o : Side) (os : List Side) (s : Climb) :
    Climb.steps H (o :: os) s = s.step H o >>= Climb.steps H os := List.foldlM_cons

theorem climbNew_eq (last : ℕ) (s : Climb) :
    climbNew H last s = s.steps H (HashTree.bitPath 0 last) := by
  induction last using Nat.strong_induction_on generalizing s with
  | _ last ih =>
    by_cases h0 : last = 0
    · subst h0
      rw [climbNew, if_pos rfl, HashTree.bitPath_zero]
      rfl
    · rw [climbNew, if_neg h0, HashTree.bitPath_lt (by omega) rfl, Climb.steps_cons]
      exact bind_congr fun s => ih (last / 2) (by omega) s

/-- The second and the third loop walk the levels of one path. -/
theorem climbOld_climbNew {node last : ℕ} (hle : node ≤ last) (s : Climb) :
    (climbOld H node last s >>= fun p => climbNew H p.1 p.2)
      = s.steps H (HashTree.bitPath node last) := by
  induction node using Nat.strong_induction_on generalizing last s with
  | _ node ih =>
    by_cases h0 : node = 0
    · subst h0
      rw [climbOld, if_pos rfl]
      exact climbNew_eq last s
    · have hrec := ih (node / 2) (by omega) (show node / 2 ≤ last / 2 by omega)
      rw [climbOld, if_neg h0]
      by_cases hodd : node % 2 = 1
      · rw [HashTree.bitPath_odd hle hodd, Climb.steps_cons]
        simp only [if_pos hodd, bind_assoc]
        exact bind_congr hrec
      · by_cases hlt : node < last
        · rw [HashTree.bitPath_lt hlt (by omega), Climb.steps_cons]
          simp only [if_neg hodd, if_pos hlt, bind_assoc]
          exact bind_congr hrec
        · rw [HashTree.bitPath_eq (by omega) (by omega)]
          simp only [if_neg hodd, if_neg hlt]
          exact hrec s

/-- The first loop leaves the levels at which the path has siblings. -/
theorem bitPath_stripOnes (node last : ℕ) :
    HashTree.bitPath (stripOnes node last).1 (stripOnes node last).2
      = HashTree.bitSteps node last := by
  fun_induction stripOnes node last with
  | case1 node last hodd ih => rw [ih, HashTree.bitSteps_odd last hodd]
  | case2 node last heven => rw [HashTree.bitSteps_even last (by omega)]

theorem stripOnes_le {node last : ℕ} (hle : node ≤ last) :
    (stripOnes node last).1 ≤ (stripOnes node last).2 := by
  fun_induction stripOnes node last with
  | case1 node last hodd ih => exact ih (Nat.div_le_div_right hle)
  | case2 node last heven => exact hle

theorem stripOnes_pos_iff {m n : ℕ} (hm : 1 ≤ m) (hmn : m < n) :
    0 < (stripOnes (m - 1) (n - 1)).1 ↔ Side.left ∈ path m n := by
  rw [← HashTree.bitSteps_eq_path hm hmn, ← bitPath_stripOnes]
  constructor
  · intro hpos
    exact HashTree.left_mem_bitPath hpos (stripOnes_le (by omega))
  · intro hmem
    by_contra h0
    rw [Nat.eq_zero_of_not_pos h0] at hmem
    exact HashTree.left_notMem_bitPath_zero _ hmem

/-- One step of the verifier absorbs the head of its proof. -/
theorem Climb.step_eq_ok_iff {s t : Climb} {o : Side} :
    s.step H o = .ok t ↔
      ∃ c, s.proof = c :: t.proof ∧ (t.fr, t.sr) = HashTree.absorb H o c (s.fr, s.sr) ∧
        t.hashed = s.hashed ++ HashTree.absorbInputs o c (s.fr, s.sr) := by
  obtain ⟨proof, fr, sr, hashed⟩ := s
  obtain ⟨proof', fr', sr', hashed'⟩ := t
  cases o <;> cases proof <;>
    simp [Climb.step, HashTree.absorb, HashTree.absorbInputs, HashTree.nodeInput, hashNode,
      and_assoc, eq_comm]

/-- The steps along `os` absorb as many proof elements as there are sides. -/
theorem Climb.steps_eq_ok_iff {os : List Side} {s t : Climb} :
    s.steps H os = .ok t ↔
      ∃ cs, s.proof = cs ++ t.proof ∧ climb H os cs (s.fr, s.sr) = some (t.fr, t.sr) ∧
        t.hashed = s.hashed ++ climbInputs H os cs (s.fr, s.sr) := by
  induction os generalizing s with
  | nil =>
      obtain ⟨proof, fr, sr, hashed⟩ := s
      obtain ⟨proof', fr', sr', hashed'⟩ := t
      constructor
      · intro h
        cases h
        exact ⟨[], rfl, rfl, by simp [climbInputs]⟩
      · rintro ⟨cs, hproof, hclimb, hhashed⟩
        obtain ⟨rfl, hs⟩ := HashTree.climb_nil hclimb
        obtain ⟨rfl, rfl⟩ := Prod.mk.inj hs
        simp only [List.nil_append, climbInputs, List.append_nil] at hproof hhashed
        rw [hproof, hhashed]
        rfl
  | cons o os ih =>
      rw [Climb.steps_cons]
      constructor
      · intro h
        cases hstep : s.step H o with
        | error e => rw [hstep] at h; cases h
        | ok u =>
            rw [hstep] at h
            obtain ⟨cs, hproof, hclimb, hhashed⟩ := ih.mp h
            obtain ⟨c, hc, hroots, hu⟩ := Climb.step_eq_ok_iff.mp hstep
            refine ⟨c :: cs, ?_, ?_, ?_⟩
            · rw [hc, hproof, List.cons_append]
            · rw [climb, ← hroots, hclimb]
            · rw [hhashed, hu, climbInputs, ← hroots, List.append_assoc]
      · rintro ⟨cs, hproof, hclimb, hhashed⟩
        cases cs with
        | nil => cases hclimb
        | cons c cs =>
            rw [climb] at hclimb
            rw [climbInputs] at hhashed
            obtain ⟨fr, sr, habs⟩ : ∃ fr sr, HashTree.absorb H o c (s.fr, s.sr) = (fr, sr) :=
              ⟨_, _, rfl⟩
            -- the state after the first element, from which the other steps go on
            let u : Climb := ⟨cs ++ t.proof, fr, sr,
              s.hashed ++ HashTree.absorbInputs o c (s.fr, s.sr)⟩
            have hstep : s.step H o = .ok u :=
              Climb.step_eq_ok_iff.mpr ⟨c, hproof, habs.symm, rfl⟩
            rw [hstep]
            refine ih.mpr ⟨cs, rfl, ?_, ?_⟩
            · rw [← hclimb, habs]
            · rw [hhashed, habs, ← List.append_assoc]

/-- Where the climb starts: at the first proof element, unless the old tree is a subtree of the new
one, whose root the verifier knows. -/
def proofStart (m n : ℕ) (proof : List Bytes) (oldRoot : Bytes) : Option (Bytes × List Bytes) :=
  if Side.left ∈ path m n then
    match proof with
    | [] => none
    | c :: rest => some (c, rest)
  else some (oldRoot, proof)

/-- The loops of `VerifyConsistency` are a climb along the path from the old tree to the new one. -/
theorem consistencyRun_eq_ok_iff {m n : ℕ} (hm : 1 ≤ m) (hmn : m < n) {proof : List Bytes}
    {oldRoot : Bytes} {t : Climb} :
    consistencyRun H m n proof oldRoot = .ok t ↔
      ∃ x cs, proofStart m n proof oldRoot = some (x, cs ++ t.proof) ∧
        climb H (path m n) cs (x, x) = some (t.fr, t.sr) ∧
        t.hashed = climbInputs H (path m n) cs (x, x) := by
  have hpath : HashTree.bitPath (stripOnes (m - 1) (n - 1)).1 (stripOnes (m - 1) (n - 1)).2
      = path m n := by
    rw [bitPath_stripOnes, HashTree.bitSteps_eq_path hm hmn]
  have hloops := climbOld_climbNew (H := H) (stripOnes_le (show m - 1 ≤ n - 1 by omega))
  rw [hpath] at hloops
  have hrun : ∀ x rest, (Climb.mk rest x x []).steps H (path m n) = .ok t ↔
      ∃ cs, rest = cs ++ t.proof ∧ climb H (path m n) cs (x, x) = some (t.fr, t.sr) ∧
        t.hashed = climbInputs H (path m n) cs (x, x) := by
    intro x rest
    rw [Climb.steps_eq_ok_iff]
    simp only [List.nil_append]
  unfold proofStart consistencyRun
  by_cases hleft : Side.left ∈ path m n
  · simp only [if_pos hleft, if_pos ((stripOnes_pos_iff hm hmn).mpr hleft)]
    cases proof with
    | nil => simp [bind, Except.bind]
    | cons c rest =>
        refine (iff_of_eq (congrArg (· = Except.ok t) (hloops _))).trans ((hrun c rest).trans ?_)
        simp [and_assoc]
  · simp only [if_neg hleft, if_neg (mt (stripOnes_pos_iff hm hmn).mp hleft)]
    refine (iff_of_eq (congrArg (· = Except.ok t) (hloops _))).trans ((hrun oldRoot proof).trans ?_)
    simp [and_assoc]

/-- An accepted proof, between non-empty trees of different sizes, is a climb to the two roots, and
the verifier hashes the inputs of the climb. -/
theorem climb_of_verifyConsistency {m n : ℕ} (hm : 1 ≤ m) (hmn : m < n) {proof : List Bytes}
    {oldRoot newRoot : Bytes} (h : verifyConsistency H m n proof oldRoot newRoot = true) :
    ∃ x cs, proofStart m n proof oldRoot = some (x, cs) ∧
      climb H (path m n) cs (x, x) = some (oldRoot, newRoot) ∧
      verifyConsistencyHashed H m n proof oldRoot = climbInputs H (path m n) cs (x, x) := by
  rw [verifyConsistency, if_neg (by omega), if_neg (by omega), if_neg (by omega)] at h
  rw [verifyConsistencyHashed, if_pos (by omega)]
  simp only [Int.toNat_natCast] at h ⊢
  cases hrun : consistencyRun H m n proof oldRoot with
  | error e => simp [hrun] at h
  | ok t =>
      rw [hrun] at h
      simp only [Bool.and_eq_true, decide_eq_true_eq, List.length_eq_zero_iff] at h
      obtain ⟨⟨rfl, rfl⟩, hproof⟩ := h
      obtain ⟨x, cs, hstart, hclimb, hhashed⟩ := (consistencyRun_eq_ok_iff hm hmn).mp hrun
      rw [hproof, List.append_nil] at hstart
      exact ⟨x, cs, hstart, hclimb, hhashed⟩

/-- A climb to the two roots is accepted. -/
theorem verifyConsistency_of_climb {m n : ℕ} (hm : 1 ≤ m) (hmn : m < n) {proof cs : List Bytes}
    {oldRoot newRoot x : Bytes} (hstart : proofStart m n proof oldRoot = some (x, cs))
    (hclimb : climb H (path m n) cs (x, x) = some (oldRoot, newRoot)) :
    verifyConsistency H m n proof oldRoot newRoot = true := by
  have hrun : consistencyRun H m n proof oldRoot
      = .ok ⟨[], oldRoot, newRoot, climbInputs H (path m n) cs (x, x)⟩ :=
    (consistencyRun_eq_ok_iff hm hmn).mpr ⟨x, cs, by rw [hstart, List.append_nil], hclimb, rfl⟩
  rw [verifyConsistency, if_neg (by omega), if_neg (by omega), if_neg (by omega)]
  simp [hrun]

/-! ## Soundness -/

/-- An accepted proof never shrinks the tree. -/
theorem le_of_verifyConsistency {m n : ℤ} {proof : List Bytes} {oldRoot newRoot : Bytes}
    (h : verifyConsistency H m n proof oldRoot newRoot = true) : 0 ≤ m ∧ m ≤ n := by
  rw [verifyConsistency] at h
  split at h
  · cases h
  · omega

/-- Between trees of one size, only the empty proof of equal roots is accepted. -/
theorem eq_of_verifyConsistency_self {n : ℕ} {proof : List Bytes} {oldRoot newRoot : Bytes}
    (h : verifyConsistency H n n proof oldRoot newRoot = true) : oldRoot = newRoot := by
  rw [verifyConsistency, if_neg (by omega), if_pos rfl] at h
  simp only [Bool.and_eq_true, decide_eq_true_eq] at h
  exact h.2

/-- Without a collision, an accepted proof between two Merkle roots shows that the old leaves are
the first leaves of the new list. -/
theorem prefix_of_verifyConsistency {Q : List Bytes} (hQ : ¬ H.Collides Q) {D E proof : List Bytes}
    (hD : 1 ≤ D.length) (hDQ : HashTree.rootInputs H D ⊆ Q) (hEQ : HashTree.rootInputs H E ⊆ Q)
    (hinQ : verifyConsistencyHashed H D.length E.length proof (root H D) ⊆ Q)
    (h : verifyConsistency H D.length E.length proof (root H D) (root H E) = true) :
    D = E.take D.length := by
  have hle := le_of_verifyConsistency h
  rcases (show D.length ≤ E.length by omega).eq_or_lt with heq | hlt
  · rw [heq] at h
    have hroots := eq_of_verifyConsistency_self h
    rw [root_eq, root_eq] at hroots
    rw [heq, List.take_length]
    exact HashTree.root_injective hQ D E heq hDQ hEQ hroots
  · obtain ⟨x, cs, -, hclimb, hhashed⟩ := climb_of_verifyConsistency hD hlt h
    rw [root_eq, root_eq] at hclimb
    rw [hhashed] at hinQ
    exact HashTree.climb_sound hQ D E hD hlt.le hDQ hEQ cs hinQ hclimb

/-- An accepted proof leads from a digest to a digest. -/
theorem length_of_verifyConsistency {m n : ℕ} (hm : 1 ≤ m) {proof : List Bytes}
    {oldRoot newRoot : Bytes} (hold : oldRoot.length = 32)
    (h : verifyConsistency H m n proof oldRoot newRoot = true) : newRoot.length = 32 := by
  have hle := le_of_verifyConsistency h
  rcases (show m ≤ n by omega).eq_or_lt with rfl | hlt
  · rw [← eq_of_verifyConsistency_self h, hold]
  · obtain ⟨x, cs, -, hclimb, -⟩ := climb_of_verifyConsistency hm hlt h
    exact HashTree.length_climb_snd (HashTree.path_ne_nil (by omega) hlt) hclimb

/-- `VerifyConsistency` takes its first subtree root from the proof, not from the caller. -/
def startsFromProof (oldSize newSize : ℤ) : Prop :=
  0 < (stripOnes (oldSize.toNat - 1) (newSize.toNat - 1)).1

/-- Without a collision, an accepted proof to a Merkle root comes from the Merkle root of a prefix,
provided that the old root and the subtree root at which the proof starts are as long as digests. -/
theorem root_take_of_verifyConsistency {Q : List Bytes} (hQ : ¬ H.Collides Q) {m : ℕ} (hm : 1 ≤ m)
    {E proof : List Bytes} {oldRoot : Bytes} (hold : oldRoot.length = 32)
    (hstart : startsFromProof m E.length → ∀ x ∈ proof.head?, x.length = 32)
    (hEQ : HashTree.rootInputs H E ⊆ Q)
    (hinQ : verifyConsistencyHashed H m E.length proof oldRoot ⊆ Q)
    (h : verifyConsistency H m E.length proof oldRoot (root H E) = true) :
    oldRoot = root H (E.take m) ∧ HashTree.rootInputs H (E.take m) ⊆ Q := by
  have hle := le_of_verifyConsistency h
  rcases (show m ≤ E.length by omega).eq_or_lt with rfl | hlt
  · rw [eq_of_verifyConsistency_self h, List.take_length]
    exact ⟨rfl, hEQ⟩
  · obtain ⟨x, cs, hproof, hclimb, hhashed⟩ := climb_of_verifyConsistency hm hlt h
    have hx : x.length = 32 := by
      unfold proofStart at hproof
      split at hproof
      · next hleft =>
          match proof, hproof with
          | c :: rest, hproof =>
              obtain ⟨rfl, -⟩ := Prod.mk.inj (Option.some.inj hproof)
              exact hstart ((stripOnes_pos_iff hm hlt).mpr hleft) c rfl
      · obtain ⟨rfl, -⟩ := Prod.mk.inj (Option.some.inj hproof)
        exact hold
    rw [root_eq] at hclimb ⊢
    rw [hhashed] at hinQ
    exact HashTree.climb_prefix_root hQ E hm hlt.le hEQ cs hx hinQ hclimb

/-- The byte strings hashed when two roots are computed and a consistency proof between them is
verified. -/
def consistencyHashed (H : Hash 32) (D E proof : List Bytes) : List Bytes :=
  HashTree.rootInputs H D ++ HashTree.rootInputs H E ++
    verifyConsistencyHashed H D.length E.length proof (root H D)

/-- Soundness of consistency proofs. An accepted proof, whatever its elements, shows that the old
leaves are the first leaves of the new list, unless two of the byte strings hashed on the way
collide. -/
theorem verifyConsistency_sound (H : Hash 32) (D E proof : List Bytes) (hD : 1 ≤ D.length)
    (h : verifyConsistency H D.length E.length proof (root H D) (root H E) = true) :
    D = E.take D.length ∨ H.Collides (consistencyHashed H D E proof) := by
  by_cases hQ : H.Collides (consistencyHashed H D E proof)
  · exact .inr hQ
  · refine .inl (prefix_of_verifyConsistency hQ hD ?_ ?_ ?_ h)
    · exact List.subset_append_of_subset_left _ (List.subset_append_left _ _)
    · exact List.subset_append_of_subset_left _ (List.subset_append_right _ _)
    · exact List.subset_append_right _ _

/-- A log of three entries extended by two more. -/
theorem verifyConsistency_sound_three_five :
    let D : List Bytes := [[1], [2], [3]]
    let E : List Bytes := [[1], [2], [3], [4], [5]]
    let proof := subproof (.checksum 32) 3 E true
    verifyConsistency (.checksum 32) D.length E.length proof (root (.checksum 32) D)
        (root (.checksum 32) E) = true ∧
      (D = E.take D.length ∨
        (Hash.checksum 32).Collides (consistencyHashed (.checksum 32) D E proof)) :=
  ⟨by decide +kernel, verifyConsistency_sound (.checksum 32) _ _ _ (by decide) (by decide +kernel)⟩

/-! ## Completeness -/

/-- `subproof` lists the siblings of the path, after the subtree root at which the prefix ends
unless the verifier knows that root already. -/
theorem subproof_eq {m : ℕ} (ds : List Bytes) (b : Bool) (hm1 : 1 ≤ m) (hmn : m ≤ ds.length) :
    subproof H m ds b =
      (if b ∧ Side.left ∉ path m ds.length then [] else [HashTree.base H m ds]) ++
        HashTree.siblings H m ds := by
  induction hn : ds.length using Nat.strong_induction_on generalizing ds m b with
  | _ n ih =>
    subst hn
    rcases hmn.eq_or_lt with rfl | hlt
    · rw [subproof, if_neg (by omega), HashTree.path_self, HashTree.base_self,
        HashTree.siblings_self, root_eq]
      simp
    · have h2 : 2 ≤ ds.length := by omega
      have hsplit := HashTree.split_lt h2
      have hpos := HashTree.split_pos ds.length
      rw [subproof, if_pos ⟨h2, hlt.ne⟩, lp2_eq_split h2]
      by_cases hm : m ≤ HashTree.split ds.length
      · have hlen : (ds.take (HashTree.split ds.length)).length = HashTree.split ds.length :=
          List.length_take_of_le hsplit.le
        simp only [if_pos hm]
        rw [ih _ (by omega) (ds.take (HashTree.split ds.length)) b hm1 (by omega) rfl, hlen,
          HashTree.path_of_le_split h2 hm, HashTree.base_of_le_split h2 hm,
          HashTree.siblings_of_le_split h2 hm, root_eq]
        simp
      · have hm' : HashTree.split ds.length < m := by omega
        have hlen : (ds.drop (HashTree.split ds.length)).length
            = ds.length - HashTree.split ds.length := List.length_drop ..
        simp only [if_neg hm]
        rw [ih _ (by omega) (ds.drop (HashTree.split ds.length)) false
            (show 1 ≤ m - HashTree.split ds.length by omega) (by omega) rfl, hlen,
          HashTree.path_of_split_lt hlt hm', HashTree.base_of_split_lt hlt hm',
          HashTree.siblings_of_split_lt hlt hm', root_eq]
        simp

/-- The verifier starts its climb over the generated proof at the right subtree root. -/
theorem proofStart_subproof {m : ℕ} (ds : List Bytes) (hm1 : 1 ≤ m) (hmn : m ≤ ds.length) :
    proofStart m ds.length (subproof H m ds true) (root H (ds.take m))
      = some (HashTree.base H m ds, HashTree.siblings H m ds) := by
  rw [subproof_eq ds true hm1 hmn]
  unfold proofStart
  by_cases hleft : Side.left ∈ path m ds.length
  · simp [hleft]
  · simp [hleft, root_eq, HashTree.base_eq_root_take ds hm1 hmn hleft]

/-- The generated proof between two sizes verifies. -/
theorem verifyConsistency_subproof {m : ℕ} (E : List Bytes) (hpos : 1 ≤ m) (hlt : m < E.length) :
    verifyConsistency H m E.length (subproof H m E true) (root H (E.take m)) (root H E) = true := by
  have hclimb := HashTree.climb_siblings (H := H) E hpos hlt.le
  rw [← root_eq, ← root_eq] at hclimb
  exact verifyConsistency_of_climb hpos hlt (proofStart_subproof E hpos hlt.le) hclimb

/-- Completeness of consistency proofs. -/
theorem verifyConsistency_complete (H : Hash 32) (E : List Bytes) (m : ℕ) (hm : m ≤ E.length) :
    ∃ proof, consistencyProof H E m = .ok proof ∧
      verifyConsistency H m E.length proof (root H (E.take m)) (root H E) = true := by
  rw [consistencyProof, if_neg (by omega)]
  rcases hm.eq_or_lt with rfl | hlt
  · refine ⟨[], by rw [if_pos (by omega)], ?_⟩
    rw [verifyConsistency, if_neg (by omega), if_pos rfl]
    simp
  · rcases Nat.eq_zero_or_pos m with rfl | hpos
    · refine ⟨[], by rw [if_pos (by omega)], ?_⟩
      rw [verifyConsistency, if_neg (by omega), if_neg (by omega), if_pos (by omega)]
      simp
    · exact ⟨subproof H m E true, by rw [if_neg (by omega), Int.toNat_natCast],
        verifyConsistency_subproof E hpos hlt⟩

theorem verifyConsistency_complete_three_five :
    let E : List Bytes := [[1], [2], [3], [4], [5]]
    3 ≤ E.length ∧ ∃ proof, consistencyProof (.checksum 32) E 3 = .ok proof ∧
      verifyConsistency (.checksum 32) 3 E.length proof (root (.checksum 32) (E.take 3))
        (root (.checksum 32) E) = true :=
  ⟨by decide, verifyConsistency_complete (.checksum 32) _ 3 (by decide)⟩

end Sanad.Audit
