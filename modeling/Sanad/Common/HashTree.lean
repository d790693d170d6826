import Mathlib.Data.Nat.Log
import Mathlib.Data.List.Basic
import Mathlib.Tactic.Linarith
import Sanad.Common.Bytes

/-! # Append-only hash trees

The RFC 6962 tree splits its leaf list at the largest power of two below the size. This module
develops that tree over an arbitrary hash function with fixed-size digests: its root, the path that
joins the tree over the first `m` leaves to the tree over all `n` of them, and the climb along that
path which a consistency check performs.

Nothing here assumes the hash injective. A result that needs it either takes the injectivity of the
hash on an explicit list of inputs, or returns two inputs of that list with one digest (`Collides`).
-/

/-- A hash function whose digests all have `w` bytes. -/
structure Hash (w : ℕ) where
  /-- The digest of a byte string. -/
  sum : Bytes → Bytes
  length_sum : ∀ b, (sum b).length = w

namespace Hash

variable {w : ℕ} (H : Hash w)

/-- Two distinct byte strings of `Q` have the same digest. -/
def Collides (Q : List Bytes) : Prop :=
  ∃ x ∈ Q, ∃ y ∈ Q, x ≠ y ∧ H.sum x = H.sum y

instance (Q : List Bytes) : Decidable (H.Collides Q) :=
  inferInstanceAs (Decidable (∃ x ∈ Q, ∃ y ∈ Q, x ≠ y ∧ H.sum x = H.sum y))

variable {H}

/-- Without a collision, inputs of `Q` are determined by their digests. -/
theorem eq_of_not_collides {Q : List Bytes} (h : ¬ H.Collides Q) {x y : Bytes} (hx : x ∈ Q)
    (hy : y ∈ Q) (hxy : H.sum x = H.sum y) : x = y := by
  by_contra hne
  exact h ⟨x, hx, y, hy, hne, hxy⟩

/-- A collision within a list is a collision within any larger one. -/
theorem Collides.mono {Q Q' : List Bytes} (h : H.Collides Q) (hsub : Q ⊆ Q') : H.Collides Q' := by
  obtain ⟨x, hx, y, hy, hne, hxy⟩ := h
  exact ⟨x, hsub hx, y, hsub hy, hne, hxy⟩

/-- The first `w` bytes, lowest first, of a number. -/
def littleEndian (w n : ℕ) : Bytes := (List.range w).map fun i => (n / 256 ^ i).toUInt8

/-- A checksum with digests of `w` bytes, on which definitions can be evaluated. -/
def checksum (w : ℕ) : Hash w where
  sum b := littleEndian w (b.foldl (fun n (c : UInt8) => n * 257 + c.toNat + 1) 7)
  length_sum b := by rw [littleEndian, List.length_map, List.length_range]

end Hash

namespace HashTree

variable {w : ℕ}

/-! ## The split point -/

/-- The largest power of two strictly below `n`, for `n ≥ 2`. -/
def split (n : ℕ) : ℕ := 2 ^ Nat.log 2 (n - 1)

theorem split_pos (n : ℕ) : 0 < split n := Nat.two_pow_pos _

theorem split_lt {n : ℕ} (h : 2 ≤ n) : split n < n := by
  have := Nat.pow_log_le_self 2 (x := n - 1) (by omega)
  unfold split
  omega

theorem le_two_mul_split {n : ℕ} (h : 2 ≤ n) : n ≤ 2 * split n := by
  have := Nat.lt_pow_succ_log_self (b := 2) (by norm_num) (n - 1)
  rw [pow_succ] at this
  unfold split
  omega

/-- The split point is the only power of two in the upper half of the range. -/
theorem split_eq {n a : ℕ} (h₁ : 2 ^ a < n) (h₂ : n ≤ 2 * 2 ^ a) : split n = 2 ^ a := by
  have hlog : Nat.log 2 (n - 1) = a := by
    have hpos : 0 < 2 ^ a := Nat.two_pow_pos a
    rw [Nat.log_eq_iff (Or.inr ⟨by norm_num, by omega⟩), pow_succ]
    omega
  rw [split, hlog]

/-- Sizes with the same leading bit split at the same point. -/
theorem split_eq_of_lt {m n : ℕ} (hn : 2 ≤ n) (h₁ : split n < m) (h₂ : m ≤ n) :
    split m = split n :=
  split_eq h₁ (h₂.trans (le_two_mul_split hn))

/-! ## The root -/

/-- The input hashed for a leaf: RFC 6962 separates leaves from nodes by their first byte. -/
def leafInput (d : Bytes) : Bytes := 0x00 :: d

/-- The input hashed for a node over two subtrees. -/
def nodeInput (l r : Bytes) : Bytes := 0x01 :: (l ++ r)

/-- The tree hash of a leaf list. -/
def root (H : Hash w) (ds : List Bytes) : Bytes :=
  match ds with
  | [] => H.sum []
  | [d] => H.sum (leafInput d)
  | d :: d' :: rest =>
    let all := d :: d' :: rest
    H.sum (nodeInput (root H (all.take (split all.length))) (root H (all.drop (split all.length))))
termination_by ds.length
decreasing_by
  · have := split_lt (n := (d :: d' :: rest).length) (by simp)
    rw [List.length_take]
    omega
  · have := split_pos (d :: d' :: rest).length
    simp only [List.length_drop, List.length_cons] at *
    omega

/-- The byte strings that computing the tree hash feeds to the hash function. -/
def rootInputs (H : Hash w) (ds : List Bytes) : List Bytes :=
  match ds with
  | [] => [[]]
  | [d] => [leafInput d]
  | d :: d' :: rest =>
    let all := d :: d' :: rest
    nodeInput (root H (all.take (split all.length))) (root H (all.drop (split all.length))) ::
      (rootInputs H (all.take (split all.length)) ++ rootInputs H (all.drop (split all.length)))
termination_by ds.length
decreasing_by
  · have := split_lt (n := (d :: d' :: rest).length) (by simp)
    rw [List.length_take]
    omega
  · have := split_pos (d :: d' :: rest).length
    simp only [List.length_drop, List.length_cons] at *
    omega

variable {H : Hash w}

theorem root_singleton (d : Bytes) : root H [d] = H.sum (leafInput d) := by rw [root]

/-- The root over at least two leaves is the node over its two halves. -/
theorem root_split {ds : List Bytes} (h : 2 ≤ ds.length) :
    root H ds = H.sum (nodeInput (root H (ds.take (split ds.length)))
      (root H (ds.drop (split ds.length)))) := by
  match ds, h with
  | d :: d' :: rest, _ => rw [root]

theorem rootInputs_split {ds : List Bytes} (h : 2 ≤ ds.length) :
    rootInputs H ds =
      nodeInput (root H (ds.take (split ds.length))) (root H (ds.drop (split ds.length))) ::
        (rootInputs H (ds.take (split ds.length)) ++ rootInputs H (ds.drop (split ds.length))) := by
  match ds, h with
  | d :: d' :: rest, _ => rw [rootInputs]

theorem length_root (ds : List Bytes) : (root H ds).length = w := by
  match ds with
  | [] => rw [root]; exact H.length_sum _
  | [d] => rw [root]; exact H.length_sum _
  | d :: d' :: rest => rw [root]; exact H.length_sum _

/-- The last input hashed for a tree of at least two leaves. -/
theorem nodeInput_mem_rootInputs {ds : List Bytes} (h : 2 ≤ ds.length) :
    nodeInput (root H (ds.take (split ds.length))) (root H (ds.drop (split ds.length)))
      ∈ rootInputs H ds := by
  rw [rootInputs_split h]
  exact List.mem_cons_self

theorem rootInputs_take_subset {ds : List Bytes} (h : 2 ≤ ds.length) :
    rootInputs H (ds.take (split ds.length)) ⊆ rootInputs H ds := by
  rw [rootInputs_split h]
  exact List.subset_cons_of_subset _ (List.subset_append_left _ _)

theorem rootInputs_drop_subset {ds : List Bytes} (h : 2 ≤ ds.length) :
    rootInputs H (ds.drop (split ds.length)) ⊆ rootInputs H ds := by
  rw [rootInputs_split h]
  exact List.subset_cons_of_subset _ (List.subset_append_right _ _)

/-- Without a collision, a digest that equals the root of a tree of at least two leaves was computed
from the concatenation of the two subtree roots, though possibly cut at another place. -/
theorem append_eq_of_sum_eq_root {Q : List Bytes} (hQ : ¬ H.Collides Q) {ds : List Bytes}
    (hlen : 2 ≤ ds.length) (hds : rootInputs H ds ⊆ Q) {l r : Bytes} (hlr : nodeInput l r ∈ Q)
    (h : H.sum (nodeInput l r) = root H ds) :
    l ++ r = root H (ds.take (split ds.length)) ++ root H (ds.drop (split ds.length)) := by
  rw [root_split hlen] at h
  have hin := Hash.eq_of_not_collides hQ hlr (hds (nodeInput_mem_rootInputs hlen)) h
  simpa [nodeInput] using hin

/-- Without a collision, the root determines the leaves among lists of one length. -/
theorem root_injective {Q : List Bytes} (hQ : ¬ H.Collides Q) (ds es : List Bytes)
    (hlen : ds.length = es.length) (hds : rootInputs H ds ⊆ Q) (hes : rootInputs H es ⊆ Q)
    (h : root H ds = root H es) : ds = es := by
  induction hn : ds.length using Nat.strong_induction_on generalizing ds es with
  | _ n ih =>
    match ds, es, hlen with
    | [], [], _ => rfl
    | [d], [e], _ =>
        rw [root_singleton, root_singleton] at h
        have hd : leafInput d ∈ Q := hds (by simp [rootInputs])
        have he : leafInput e ∈ Q := hes (by simp [rootInputs])
        have hin := Hash.eq_of_not_collides hQ hd he h
        simp only [leafInput, List.cons.injEq, true_and] at hin
        rw [hin]
    | d :: d' :: ds', e :: e' :: es', hlen =>
        set ds := d :: d' :: ds' with hdsdef
        set es := e :: e' :: es' with hesdef
        have h2d : 2 ≤ ds.length := by simp [hdsdef]
        have h2e : 2 ≤ es.length := by simp [hesdef]
        have hlt := split_lt h2d
        have hpos := split_pos ds.length
        have happ := append_eq_of_sum_eq_root hQ h2e hes (hds (nodeInput_mem_rootInputs h2d))
          ((root_split h2d).symm.trans h)
        -- roots are digests, so the two halves of the node are told apart by their length
        obtain ⟨hl, hr⟩ := List.append_inj happ (by rw [length_root, length_root])
        rw [← hlen] at hl hr
        have htake : ds.take (split ds.length) = es.take (split ds.length) :=
          ih _ (by rw [List.length_take]; omega) _ _ (by rw [List.length_take, List.length_take, hlen])
            (List.Subset.trans (rootInputs_take_subset h2d) hds)
            (by rw [hlen]; exact List.Subset.trans (rootInputs_take_subset h2e) hes) hl rfl
        have hdrop : ds.drop (split ds.length) = es.drop (split ds.length) :=
          ih _ (by rw [List.length_drop]; omega) _ _ (by rw [List.length_drop, List.length_drop, hlen])
            (List.Subset.trans (rootInputs_drop_subset h2d) hds)
            (by rw [hlen]; exact List.Subset.trans (rootInputs_drop_subset h2e) hes) hr rfl
        rw [← List.take_append_drop (split ds.length) ds, htake, hdrop, List.take_append_drop]

/-! ## Joining the tree of a prefix to the whole tree -/

/-- The side on which a sibling joins the node reached so far. -/
inductive Side where
  /-- The sibling precedes the node, so it belongs to the prefix as well. -/
  | left
  /-- The sibling follows the node, so it lies beyond the prefix. -/
  | right
  deriving DecidableEq, Repr

/-- The siblings met on the way up from the last complete subtree of the first `m` leaves to the
root of `n` leaves, lowest first. -/
def path (m n : ℕ) : List Side :=
  if 2 ≤ n ∧ m < n then
    if m ≤ split n then path m (split n) ++ [.right]
    else path (m - split n) (n - split n) ++ [.left]
  else []
termination_by n
decreasing_by
  · exact split_lt (by omega)
  · have := split_pos n
    omega

theorem path_self (n : ℕ) : path n n = [] := by
  rw [path, if_neg (by omega)]

theorem path_of_le_split {m n : ℕ} (hn : 2 ≤ n) (hm : m ≤ split n) :
    path m n = path m (split n) ++ [.right] := by
  have := split_lt hn
  rw [path, if_pos ⟨hn, by omega⟩, if_pos hm]

theorem path_of_split_lt {m n : ℕ} (hmn : m < n) (hm : split n < m) :
    path m n = path (m - split n) (n - split n) ++ [.left] := by
  have := split_pos n
  rw [path, if_pos ⟨by omega, hmn⟩, if_neg (by omega)]

theorem path_ne_nil {m n : ℕ} (hn : 2 ≤ n) (hmn : m < n) : path m n ≠ [] := by
  by_cases hm : m ≤ split n
  · rw [path_of_le_split hn hm]
    simp
  · rw [path_of_split_lt hmn (by omega)]
    simp

/-- One step of the climb: absorb sibling `c` into the prefix root `fr` and the whole root `sr`. -/
def absorb (H : Hash w) : Side → Bytes → Bytes × Bytes → Bytes × Bytes
  | .left, c, (fr, sr) => (H.sum (nodeInput c fr), H.sum (nodeInput c sr))
  | .right, c, (fr, sr) => (fr, H.sum (nodeInput sr c))

/-- The inputs hashed by one step of the climb. -/
def absorbInputs : Side → Bytes → Bytes × Bytes → List Bytes
  | .left, c, (fr, sr) => [nodeInput c fr, nodeInput c sr]
  | .right, c, (_, sr) => [nodeInput sr c]

/-- Climb from a pair of subtree roots along the sides `os`, one sibling for each. -/
def climb (H : Hash w) : List Side → List Bytes → Bytes × Bytes → Option (Bytes × Bytes)
  | [], [], s => some s
  | o :: os, c :: cs, s => climb H os cs (absorb H o c s)
  | _, _, _ => none

/-- The inputs hashed along a climb. -/
def climbInputs (H : Hash w) : List Side → List Bytes → Bytes × Bytes → List Bytes
  | o :: os, c :: cs, s => absorbInputs o c s ++ climbInputs H os cs (absorb H o c s)
  | _, _, _ => []

/-- A climb that ends with side `o` ends by absorbing the last sibling. -/
theorem climb_concat {os : List Side} {o : Side} {cs : List Bytes} {s t : Bytes × Bytes}
    (h : climb H (os ++ [o]) cs s = some t) :
    ∃ cs' c s', cs = cs' ++ [c] ∧ climb H os cs' s = some s' ∧ t = absorb H o c s' ∧
      climbInputs H (os ++ [o]) cs s = climbInputs H os cs' s ++ absorbInputs o c s' := by
  induction os generalizing cs s with
  | nil =>
      match cs, h with
      | [c], h =>
          simp only [List.nil_append, climb, Option.some.injEq] at h
          exact ⟨[], c, s, rfl, rfl, h.symm, by simp [climbInputs]⟩
  | cons o' os ih =>
      match cs, h with
      | c' :: cs, h =>
          obtain ⟨cs', c, s', rfl, hclimb, ht, hin⟩ := ih (s := absorb H o' c' s) h
          refine ⟨c' :: cs', c, s', rfl, hclimb, ht, ?_⟩
          rw [List.cons_append, climbInputs, hin, climbInputs, List.append_assoc]

theorem climb_append {os : List Side} {o : Side} {cs : List Bytes} {c : Bytes} {s s' : Bytes × Bytes}
    (h : climb H os cs s = some s') :
    climb H (os ++ [o]) (cs ++ [c]) s = some (absorb H o c s') := by
  induction os generalizing cs s with
  | nil =>
      match cs, h with
      | [], h =>
          simp only [climb, Option.some.injEq] at h
          simp [climb, h]
  | cons o' os ih =>
      match cs, h with
      | c' :: cs, h => exact ih h

/-- A climb along at least one side ends in a digest for the whole tree. -/
theorem length_climb_snd {os : List Side} (hos : os ≠ []) {cs : List Bytes} {s t : Bytes × Bytes}
    (h : climb H os cs s = some t) : t.2.length = w := by
  obtain ⟨os', o, rfl⟩ := (List.eq_nil_or_concat' os).resolve_left hos
  obtain ⟨cs', c, s', -, -, rfl, -⟩ := climb_concat h
  cases o <;> exact H.length_sum _

theorem climb_nil {cs : List Bytes} {s t : Bytes × Bytes} (h : climb H [] cs s = some t) :
    cs = [] ∧ t = s := by
  match cs, h with
  | [], h => exact ⟨rfl, by simpa [climb] using h.symm⟩

/-! ## Soundness of the climb

The climb starts from one subtree root `x` for both trees. The pieces it absorbs are not known to be
digests: their lengths are free, and `nodeInput` does not record where its two parts meet. The
proofs recover the cut from the one part of each node that is known to be a digest.
-/

/-- A climb that ends right of the prefix passes through the root of the left half. -/
theorem climb_of_le_split {Q : List Bytes} (hQ : ¬ H.Collides Q) {m : ℕ} {es : List Bytes}
    (h2 : 2 ≤ es.length) (hm1 : 1 ≤ m) (hm : m ≤ split es.length) (hes : rootInputs H es ⊆ Q)
    {x fr : Bytes} {cs : List Bytes} (hin : climbInputs H (path m es.length) cs (x, x) ⊆ Q)
    (h : climb H (path m es.length) cs (x, x) = some (fr, root H es))
    (hbase : fr = x → x.length = w) :
    ∃ cs', climb H (path m (split es.length)) cs' (x, x)
        = some (fr, root H (es.take (split es.length))) ∧
      climbInputs H (path m (split es.length)) cs' (x, x) ⊆ Q := by
  rw [path_of_le_split h2 hm] at h hin
  obtain ⟨cs', c, ⟨fr', sr⟩, -, hclimb, ht, hinputs⟩ := climb_concat h
  simp only [absorb, Prod.mk.injEq] at ht
  obtain ⟨rfl, hroot⟩ := ht
  rw [hinputs, List.append_subset] at hin
  have happ := append_eq_of_sum_eq_root hQ h2 hes (hin.2 (by simp [absorbInputs])) hroot.symm
  have hsr : sr.length = w := by
    by_cases hmk : m = split es.length
    · rw [← hmk, path_self] at hclimb
      obtain ⟨-, hs⟩ := climb_nil hclimb
      obtain ⟨hfr, rfl⟩ := Prod.mk.inj hs
      exact hbase hfr
    · exact length_climb_snd (path_ne_nil (by omega) (by omega)) hclimb
  obtain ⟨hsr', -⟩ := List.append_inj happ (by rw [hsr, length_root])
  exact ⟨cs', by rw [hclimb, hsr'], hin.1⟩

/-- A climb that ends left of the prefix passes through the root of the right half, and absorbs the
root of the left half into both results. -/
theorem climb_of_split_lt {Q : List Bytes} (hQ : ¬ H.Collides Q) {m : ℕ} {es : List Bytes}
    (hmn : m < es.length) (hm : split es.length < m) (hes : rootInputs H es ⊆ Q)
    {x fr : Bytes} {cs : List Bytes} (hin : climbInputs H (path m es.length) cs (x, x) ⊆ Q)
    (h : climb H (path m es.length) cs (x, x) = some (fr, root H es)) :
    ∃ cs' fr', climb H (path (m - split es.length) (es.length - split es.length)) cs' (x, x)
        = some (fr', root H (es.drop (split es.length))) ∧
      climbInputs H (path (m - split es.length) (es.length - split es.length)) cs' (x, x) ⊆ Q ∧
      nodeInput (root H (es.take (split es.length))) fr' ∈ Q ∧
      fr = H.sum (nodeInput (root H (es.take (split es.length))) fr') := by
  have hpos := split_pos es.length
  rw [path_of_split_lt hmn hm] at h hin
  obtain ⟨cs', c, ⟨fr', sr⟩, -, hclimb, ht, hinputs⟩ := climb_concat h
  simp only [absorb, Prod.mk.injEq] at ht
  obtain ⟨rfl, hroot⟩ := ht
  rw [hinputs, List.append_subset] at hin
  have happ := append_eq_of_sum_eq_root hQ (by omega) hes (hin.2 (by simp [absorbInputs]))
    hroot.symm
  -- the whole-tree side is a digest already, so it fixes where the absorbed sibling ends
  have hsr : sr.length = w := length_climb_snd (path_ne_nil (by omega) (by omega)) hclimb
  obtain ⟨rfl, rfl⟩ := List.append_inj' happ (by rw [hsr, length_root])
  exact ⟨cs', fr', hclimb, hin.1, hin.2 (by simp [absorbInputs]), rfl⟩

/-- The root of a prefix that is longer than the split: its left half is that of the whole list. -/
theorem root_take_of_split_lt {m : ℕ} {es : List Bytes} (h2 : 2 ≤ es.length)
    (hm : split es.length < m) (hmn : m ≤ es.length) :
    root H (es.take m) = H.sum (nodeInput (root H (es.take (split es.length)))
      (root H ((es.drop (split es.length)).take (m - split es.length)))) := by
  have hpos := split_pos es.length
  have hlen : (es.take m).length = m := List.length_take_of_le hmn
  rw [root_split (show 2 ≤ (es.take m).length by omega), hlen, split_eq_of_lt h2 hm hmn,
    List.take_take, Nat.min_eq_left hm.le, List.drop_take]

theorem rootInputs_take_of_split_lt {m : ℕ} {es : List Bytes} (h2 : 2 ≤ es.length)
    (hm : split es.length < m) (hmn : m ≤ es.length) :
    rootInputs H (es.take m) = nodeInput (root H (es.take (split es.length)))
        (root H ((es.drop (split es.length)).take (m - split es.length))) ::
      (rootInputs H (es.take (split es.length)) ++
        rootInputs H ((es.drop (split es.length)).take (m - split es.length))) := by
  have hpos := split_pos es.length
  have hlen : (es.take m).length = m := List.length_take_of_le hmn
  rw [rootInputs_split (show 2 ≤ (es.take m).length by omega), hlen, split_eq_of_lt h2 hm hmn,
    List.take_take, Nat.min_eq_left hm.le, List.drop_take]

/-- A climb from a digest-sized subtree root to the root of `es` computes the root of a prefix, and
has hashed all that this root is made of. -/
theorem climb_prefix_root {Q : List Bytes} (hQ : ¬ H.Collides Q) {m : ℕ} (es : List Bytes)
    (hm1 : 1 ≤ m) (hmn : m ≤ es.length) (hes : rootInputs H es ⊆ Q) {x fr : Bytes}
    (cs : List Bytes) (hx : x.length = w) (hin : climbInputs H (path m es.length) cs (x, x) ⊆ Q)
    (h : climb H (path m es.length) cs (x, x) = some (fr, root H es)) :
    fr = root H (es.take m) ∧ rootInputs H (es.take m) ⊆ Q := by
  induction hn : es.length using Nat.strong_induction_on generalizing es m fr cs with
  | _ n ih =>
    subst hn
    rcases hmn.eq_or_lt with rfl | hlt
    · rw [path_self] at h
      obtain ⟨-, hs⟩ := climb_nil h
      obtain ⟨rfl, hroot⟩ := Prod.mk.inj hs
      rw [List.take_length, hroot]
      exact ⟨rfl, hes⟩
    · have h2 : 2 ≤ es.length := by omega
      have hsplit := split_lt h2
      have hpos := split_pos es.length
      by_cases hm : m ≤ split es.length
      · obtain ⟨cs', hclimb, hin'⟩ := climb_of_le_split hQ h2 hm1 hm hes hin h (fun _ => hx)
        have hlen : (es.take (split es.length)).length = split es.length :=
          List.length_take_of_le hsplit.le
        have hrec := ih _ (by omega) (es.take (split es.length)) hm1 (by omega)
          (List.Subset.trans (rootInputs_take_subset h2) hes) cs' (by rw [hlen]; exact hin')
          (by rw [hlen]; exact hclimb) rfl
        rwa [List.take_take, Nat.min_eq_left hm] at hrec
      · -- the prefix has the whole left half, and ends in the right one
        have hm' : split es.length < m := by omega
        obtain ⟨cs', fr', hclimb, hin', hnode, rfl⟩ := climb_of_split_lt hQ hlt hm' hes hin h
        have hlen : (es.drop (split es.length)).length = es.length - split es.length :=
          List.length_drop ..
        obtain ⟨hfr, hinputs⟩ := ih _ (by omega) (es.drop (split es.length))
          (show 1 ≤ m - split es.length by omega) (by omega)
          (List.Subset.trans (rootInputs_drop_subset h2) hes) cs'
          (by rw [hlen]; exact hin') (by rw [hlen]; exact hclimb) rfl
        rw [hfr] at hnode
        refine ⟨by rw [root_take_of_split_lt h2 hm' hlt.le, hfr], ?_⟩
        rw [rootInputs_take_of_split_lt h2 hm' hlt.le]
        refine List.cons_subset.mpr ⟨hnode, List.append_subset.mpr ⟨?_, hinputs⟩⟩
        exact List.Subset.trans (rootInputs_take_subset h2) hes

/-- A climb, from any start, that ends in the roots of two lists shows that one is a prefix of the
other. -/
theorem climb_sound {Q : List Bytes} (hQ : ¬ H.Collides Q) (ds es : List Bytes)
    (hm1 : 1 ≤ ds.length) (hmn : ds.length ≤ es.length) (hds : rootInputs H ds ⊆ Q)
    (hes : rootInputs H es ⊆ Q) {x : Bytes} (cs : List Bytes)
    (hin : climbInputs H (path ds.length es.length) cs (x, x) ⊆ Q)
    (h : climb H (path ds.length es.length) cs (x, x) = some (root H ds, root H es)) :
    ds = es.take ds.length := by
  induction hn : es.length using Nat.strong_induction_on generalizing ds es cs with
  | _ n ih =>
    subst hn
    rcases hmn.eq_or_lt with heq | hlt
    · rw [heq, path_self] at h
      obtain ⟨-, hs⟩ := climb_nil h
      obtain ⟨hd, he⟩ := Prod.mk.inj hs
      rw [heq, List.take_length]
      exact root_injective hQ ds es heq hds hes (hd.trans he.symm)
    · have h2 : 2 ≤ es.length := by omega
      have hsplit := split_lt h2
      have hpos := split_pos es.length
      by_cases hm : ds.length ≤ split es.length
      · obtain ⟨cs', hclimb, hin'⟩ := climb_of_le_split hQ h2 hm1 hm hes hin h
          (fun hx => by rw [← hx, length_root])
        have hlen : (es.take (split es.length)).length = split es.length :=
          List.length_take_of_le hsplit.le
        have hpre := ih _ (by omega) ds (es.take (split es.length)) hm1 (by omega) hds
          (List.Subset.trans (rootInputs_take_subset h2) hes) cs' (by rw [hlen]; exact hin')
          (by rw [hlen]; exact hclimb) rfl
        rw [List.take_take, Nat.min_eq_left hm] at hpre
        exact hpre
      · obtain ⟨cs', fr', hclimb, hin', hfr, hroot⟩ :=
          climb_of_split_lt hQ hlt (by omega) hes hin h
        -- both lists are split at one place, so their left halves have one root
        have hk : split ds.length = split es.length := split_eq_of_lt h2 (by omega) hlt.le
        have happ := append_eq_of_sum_eq_root hQ (by omega) hds hfr hroot.symm
        rw [hk] at happ
        obtain ⟨htake, rfl⟩ := List.append_inj happ (by rw [length_root, length_root])
        have hleft : ds.take (split es.length) = es.take (split es.length) :=
          root_injective hQ _ _ (by rw [List.length_take, List.length_take]; omega)
            (by rw [← hk]; exact List.Subset.trans (rootInputs_take_subset (by omega)) hds)
            (List.Subset.trans (rootInputs_take_subset h2) hes) htake.symm
        have hlen : (es.drop (split es.length)).length = es.length - split es.length :=
          List.length_drop ..
        have hlen' : (ds.drop (split es.length)).length = ds.length - split es.length :=
          List.length_drop ..
        have hright := ih _ (by omega) (ds.drop (split es.length)) (es.drop (split es.length))
          (by omega) (by omega)
          (by rw [← hk]; exact List.Subset.trans (rootInputs_drop_subset (by omega)) hds)
          (List.Subset.trans (rootInputs_drop_subset h2) hes) cs'
          (by rw [hlen, hlen']; exact hin') (by rw [hlen, hlen']; exact hclimb) rfl
        rw [hlen'] at hright
        calc ds = ds.take (split es.length) ++ ds.drop (split es.length) :=
              (List.take_append_drop _ _).symm
          _ = es.take (split es.length)
                ++ (es.drop (split es.length)).take (ds.length - split es.length) := by
              rw [hleft, ← hright]
          _ = es.take (split es.length + (ds.length - split es.length)) := List.take_add.symm
          _ = es.take ds.length := by rw [Nat.add_sub_cancel' (by omega)]

/-! ## Completeness of the climb -/

/-- The root of the subtree at which the prefix of `m` leaves ends: the start of the climb. -/
def base (H : Hash w) (m : ℕ) (ds : List Bytes) : Bytes :=
  if 2 ≤ ds.length ∧ m < ds.length then
    if m ≤ split ds.length then base H m (ds.take (split ds.length))
    else base H (m - split ds.length) (ds.drop (split ds.length))
  else root H ds
termination_by ds.length
decreasing_by
  · have := split_lt (n := ds.length) (by omega)
    rw [List.length_take]
    omega
  · have := split_pos ds.length
    rw [List.length_drop]
    omega

/-- The sibling roots along the path from the prefix of `m` leaves, lowest first. -/
def siblings (H : Hash w) (m : ℕ) (ds : List Bytes) : List Bytes :=
  if 2 ≤ ds.length ∧ m < ds.length then
    if m ≤ split ds.length then
      siblings H m (ds.take (split ds.length)) ++ [root H (ds.drop (split ds.length))]
    else
      siblings H (m - split ds.length) (ds.drop (split ds.length)) ++
        [root H (ds.take (split ds.length))]
  else []
termination_by ds.length
decreasing_by
  · have := split_lt (n := ds.length) (by omega)
    rw [List.length_take]
    omega
  · have := split_pos ds.length
    rw [List.length_drop]
    omega

theorem base_self (ds : List Bytes) : base H ds.length ds = root H ds := by
  rw [base, if_neg (by omega)]

theorem base_of_le_split {m : ℕ} {ds : List Bytes} (h2 : 2 ≤ ds.length)
    (hm : m ≤ split ds.length) : base H m ds = base H m (ds.take (split ds.length)) := by
  have := split_lt h2
  rw [base, if_pos ⟨h2, by omega⟩, if_pos hm]

theorem base_of_split_lt {m : ℕ} {ds : List Bytes} (hmn : m < ds.length)
    (hm : split ds.length < m) :
    base H m ds = base H (m - split ds.length) (ds.drop (split ds.length)) := by
  have := split_pos ds.length
  rw [base, if_pos ⟨by omega, hmn⟩, if_neg (by omega)]

theorem siblings_self (ds : List Bytes) : siblings H ds.length ds = [] := by
  rw [siblings, if_neg (by omega)]

theorem siblings_of_le_split {m : ℕ} {ds : List Bytes} (h2 : 2 ≤ ds.length)
    (hm : m ≤ split ds.length) :
    siblings H m ds
      = siblings H m (ds.take (split ds.length)) ++ [root H (ds.drop (split ds.length))] := by
  have := split_lt h2
  rw [siblings, if_pos ⟨h2, by omega⟩, if_pos hm]

theorem siblings_of_split_lt {m : ℕ} {ds : List Bytes} (hmn : m < ds.length)
    (hm : split ds.length < m) :
    siblings H m ds = siblings H (m - split ds.length) (ds.drop (split ds.length)) ++
      [root H (ds.take (split ds.length))] := by
  have := split_pos ds.length
  rw [siblings, if_pos ⟨by omega, hmn⟩, if_neg (by omega)]

/-- The siblings take the climb to the roots of the prefix and of the whole list. -/
theorem climb_siblings {m : ℕ} (ds : List Bytes) (hm1 : 1 ≤ m) (hmn : m ≤ ds.length) :
    climb H (path m ds.length) (siblings H m ds) (base H m ds, base H m ds)
      = some (root H (ds.take m), root H ds) := by
  induction hn : ds.length using Nat.strong_induction_on generalizing ds m with
  | _ n ih =>
    subst hn
    rcases hmn.eq_or_lt with rfl | hlt
    · rw [path_self, siblings_self, base_self, List.take_length]
      rfl
    · have h2 : 2 ≤ ds.length := by omega
      have hsplit := split_lt h2
      have hpos := split_pos ds.length
      by_cases hm : m ≤ split ds.length
      · have hlen : (ds.take (split ds.length)).length = split ds.length :=
          List.length_take_of_le hsplit.le
        have hrec := ih _ (by omega) (ds.take (split ds.length)) hm1 (by omega) rfl
        rw [hlen, List.take_take, Nat.min_eq_left hm] at hrec
        rw [siblings_of_le_split h2 hm, base_of_le_split h2 hm, path_of_le_split h2 hm,
          climb_append hrec, absorb, ← root_split h2]
      · have hlen : (ds.drop (split ds.length)).length = ds.length - split ds.length :=
          List.length_drop ..
        have hrec := ih _ (by omega) (ds.drop (split ds.length))
          (show 1 ≤ m - split ds.length by omega) (by omega) rfl
        rw [hlen] at hrec
        have hm' : split ds.length < m := by omega
        rw [siblings_of_split_lt hlt hm', base_of_split_lt hlt hm', path_of_split_lt hlt hm',
          climb_append hrec, absorb, ← root_split h2, ← root_take_of_split_lt h2 hm' hlt.le]

/-- When no sibling belongs to the prefix, the prefix is the subtree at which it ends. -/
theorem base_eq_root_take {m : ℕ} (ds : List Bytes) (hm1 : 1 ≤ m) (hmn : m ≤ ds.length)
    (h : Side.left ∉ path m ds.length) : base H m ds = root H (ds.take m) := by
  induction hn : ds.length using Nat.strong_induction_on generalizing ds m with
  | _ n ih =>
    subst hn
    rcases hmn.eq_or_lt with rfl | hlt
    · rw [base_self, List.take_length]
    · have h2 : 2 ≤ ds.length := by omega
      have hsplit := split_lt h2
      by_cases hm : m ≤ split ds.length
      · have hlen : (ds.take (split ds.length)).length = split ds.length :=
          List.length_take_of_le hsplit.le
        rw [path_of_le_split h2 hm] at h
        have hrec := ih _ (by omega) (ds.take (split ds.length)) hm1 (by omega)
          (by rw [hlen]; simpa using h) rfl
        rw [base_of_le_split h2 hm, hrec, List.take_take, Nat.min_eq_left hm]
      · rw [path_of_split_lt hlt (by omega)] at h
        simp at h

end HashTree
