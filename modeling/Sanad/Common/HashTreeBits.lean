import Sanad.Common.HashTree

/-! # Hash-tree paths from the bits of two sizes

The path from the first `m` leaves to all `n` of them can be read off the binary digits of `m - 1`
and `n - 1`, lowest first. This is how RFC 6962 states its consistency check: shift both indices
down together, and let the low bit of the first decide the side of the next sibling.

`bitSteps_eq_path` identifies that reading with the path of the recursive tree. The induction runs
on the position of the leading bit of `n - 1`, which is the split point of the tree.
-/

namespace HashTree

/-- The sides read off two indices, shifted down together until the second is zero. -/
def bitPath (node last : ℕ) : List Side :=
  if last = 0 then []
  else if node % 2 = 1 then .left :: bitPath (node / 2) (last / 2)
  else if node < last then .right :: bitPath (node / 2) (last / 2)
  else bitPath (node / 2) (last / 2)
termination_by last

/-- The sides read after the trailing ones of the first index are shifted out. -/
def bitSteps (node last : ℕ) : List Side :=
  if node % 2 = 1 then bitSteps (node / 2) (last / 2) else bitPath node last
termination_by node

theorem bitPath_zero (node : ℕ) : bitPath node 0 = [] := by rw [bitPath, if_pos rfl]

theorem bitPath_odd {node last : ℕ} (hle : node ≤ last) (hodd : node % 2 = 1) :
    bitPath node last = .left :: bitPath (node / 2) (last / 2) := by
  rw [bitPath, if_neg (by omega), if_pos hodd]

theorem bitPath_lt {node last : ℕ} (hlt : node < last) (heven : node % 2 = 0) :
    bitPath node last = .right :: bitPath (node / 2) (last / 2) := by
  rw [bitPath, if_neg (by omega), if_neg (by omega), if_pos hlt]

theorem bitPath_eq {node last : ℕ} (hle : last ≤ node) (heven : node % 2 = 0) :
    bitPath node last = bitPath (node / 2) (last / 2) := by
  by_cases h0 : last = 0
  · rw [h0, bitPath_zero, Nat.zero_div, bitPath_zero]
  · rw [bitPath, if_neg h0, if_neg (by omega), if_neg (by omega)]

/-- A leading bit shared by both indices adds a left sibling at the top. -/
theorem bitPath_add {a node last : ℕ} (hle : node ≤ last) (hlast : last < 2 ^ a) :
    bitPath (2 ^ a + node) (2 ^ a + last) = bitPath node last ++ [.left] := by
  induction a generalizing node last with
  | zero =>
      obtain ⟨rfl, rfl⟩ : node = 0 ∧ last = 0 := by omega
      rw [bitPath_odd (by omega) (by norm_num)]
      norm_num [bitPath_zero]
  | succ a ih =>
      rw [pow_succ] at hlast ⊢
      have hnode2 : (2 ^ a * 2 + node) / 2 = 2 ^ a + node / 2 := by omega
      have hlast2 : (2 ^ a * 2 + last) / 2 = 2 ^ a + last / 2 := by omega
      have hrec := ih (show node / 2 ≤ last / 2 by omega) (by omega)
      rcases Nat.mod_two_eq_zero_or_one node with heven | hodd
      · rcases hle.eq_or_lt with rfl | hlt
        · rw [bitPath_eq le_rfl (by omega), hnode2, hrec, ← bitPath_eq le_rfl heven]
        · rw [bitPath_lt (by omega) (by omega), hnode2, hlast2, hrec, bitPath_lt hlt heven]
          rfl
      · rw [bitPath_odd (by omega) (by omega), hnode2, hlast2, hrec, bitPath_odd hle hodd]
        rfl

/-- A leading bit of the second index alone adds a right sibling at the top. -/
theorem bitPath_low {a node last : ℕ} (hnode : node < 2 ^ a) (hlast : last < 2 ^ a) :
    bitPath node (2 ^ a + last) = bitPath node (2 ^ a - 1) ++ [.right] := by
  induction a generalizing node last with
  | zero =>
      obtain ⟨rfl, rfl⟩ : node = 0 ∧ last = 0 := by omega
      rw [bitPath_lt (by omega) (by norm_num)]
      norm_num [bitPath_zero]
  | succ a ih =>
      rw [pow_succ] at hnode hlast ⊢
      have hpos : 0 < 2 ^ a := Nat.two_pow_pos a
      have hlast2 : (2 ^ a * 2 + last) / 2 = 2 ^ a + last / 2 := by omega
      have hfull2 : (2 ^ a * 2 - 1) / 2 = 2 ^ a - 1 := by omega
      have hrec := ih (show node / 2 < 2 ^ a by omega) (show last / 2 < 2 ^ a by omega)
      rcases Nat.mod_two_eq_zero_or_one node with heven | hodd
      · rw [bitPath_lt (by omega) heven, hlast2, hrec, bitPath_lt (show node < 2 ^ a * 2 - 1 by omega)
          heven, hfull2]
        rfl
      · rw [bitPath_odd (by omega) hodd, hlast2, hrec, bitPath_odd
          (show node ≤ 2 ^ a * 2 - 1 by omega) hodd, hfull2]
        rfl

theorem bitSteps_odd {node : ℕ} (last : ℕ) (hodd : node % 2 = 1) :
    bitSteps node last = bitSteps (node / 2) (last / 2) := by
  rw [bitSteps, if_pos hodd]

theorem bitSteps_even {node : ℕ} (last : ℕ) (heven : node % 2 = 0) :
    bitSteps node last = bitPath node last := by
  rw [bitSteps, if_neg (by omega)]

theorem bitSteps_add {a node last : ℕ} (hlt : node < last) (hlast : last < 2 ^ a) :
    bitSteps (2 ^ a + node) (2 ^ a + last) = bitSteps node last ++ [.left] := by
  induction a generalizing node last with
  | zero => omega
  | succ a ih =>
      rcases Nat.mod_two_eq_zero_or_one node with heven | hodd
      · rw [bitSteps_even _ (by rw [pow_succ]; omega), bitPath_add hlt.le hlast,
          bitSteps_even _ heven]
      · rw [pow_succ] at hlast ⊢
        rw [bitSteps_odd _ (by omega), bitSteps_odd _ hodd,
          show (2 ^ a * 2 + node) / 2 = 2 ^ a + node / 2 by omega,
          show (2 ^ a * 2 + last) / 2 = 2 ^ a + last / 2 by omega]
        exact ih (by omega) (by omega)

theorem bitSteps_low {a node last : ℕ} (hnode : node + 1 < 2 ^ a) (hlast : last < 2 ^ a) :
    bitSteps node (2 ^ a + last) = bitSteps node (2 ^ a - 1) ++ [.right] := by
  induction a generalizing node last with
  | zero => omega
  | succ a ih =>
      rcases Nat.mod_two_eq_zero_or_one node with heven | hodd
      · rw [bitSteps_even _ heven, bitPath_low (by omega) hlast, bitSteps_even _ heven]
      · rw [pow_succ] at hnode hlast ⊢
        rw [bitSteps_odd _ hodd, bitSteps_odd _ hodd,
          show (2 ^ a * 2 + last) / 2 = 2 ^ a + last / 2 by omega,
          show (2 ^ a * 2 - 1) / 2 = 2 ^ a - 1 by omega]
        exact ih (by omega) (by omega)

/-- A complete subtree joins its parent from the left. -/
theorem bitSteps_full {a last : ℕ} (hlast : last < 2 ^ a) :
    bitSteps (2 ^ a - 1) (2 ^ a + last) = [.right] := by
  induction a generalizing last with
  | zero =>
      obtain rfl : last = 0 := by omega
      rw [bitSteps_even _ (by norm_num), bitPath_lt (by norm_num) (by norm_num)]
      norm_num [bitPath_zero]
  | succ a ih =>
      have hpos : 0 < 2 ^ a := Nat.two_pow_pos a
      rw [pow_succ] at hlast ⊢
      rw [bitSteps_odd _ (by omega), show (2 ^ a * 2 + last) / 2 = 2 ^ a + last / 2 by omega,
        show (2 ^ a * 2 - 1) / 2 = 2 ^ a - 1 by omega]
      exact ih (by omega)

/-- The bits of `m - 1` and `n - 1` spell the path from `m` leaves to `n`. -/
theorem bitSteps_eq_path {m n : ℕ} (hm : 1 ≤ m) (hmn : m < n) :
    bitSteps (m - 1) (n - 1) = path m n := by
  induction n using Nat.strong_induction_on generalizing m with
  | _ n ih =>
    have h2 : 2 ≤ n := by omega
    obtain ⟨a, ha⟩ : ∃ a, split n = 2 ^ a := ⟨_, rfl⟩
    have hlt := split_lt h2
    have hle := le_two_mul_split h2
    rw [ha] at hlt hle
    -- the leading bit of `n - 1` is the split point
    have hn : n - 1 = 2 ^ a + (n - 2 ^ a - 1) := by omega
    rcases lt_trichotomy m (2 ^ a) with hma | rfl | hma
    · rw [path_of_le_split h2 (by omega), ha, ← ih _ (by omega) hm hma, hn]
      exact bitSteps_low (by omega) (by omega)
    · rw [path_of_le_split h2 ha.ge, ha, path_self, hn]
      exact bitSteps_full (by omega)
    · rw [path_of_split_lt hmn (by omega), ha, ← ih _ (by omega) (by omega) (by omega),
        hn, show m - 1 = 2 ^ a + (m - 2 ^ a - 1) by omega]
      exact bitSteps_add (by omega) (by omega)

/-- With the first index at zero every remaining sibling lies on the right. -/
theorem left_notMem_bitPath_zero (last : ℕ) : Side.left ∉ bitPath 0 last := by
  induction last using Nat.strong_induction_on with
  | _ last ih =>
    by_cases h0 : last = 0
    · rw [h0, bitPath_zero]
      simp
    · rw [bitPath_lt (by omega) (by norm_num)]
      simpa using ih (last / 2) (by omega)

/-- A set bit of the first index puts some sibling on the left. -/
theorem left_mem_bitPath {node last : ℕ} (hpos : 0 < node) (hle : node ≤ last) :
    Side.left ∈ bitPath node last := by
  induction node using Nat.strong_induction_on generalizing last with
  | _ node ih =>
    rcases Nat.mod_two_eq_zero_or_one node with heven | hodd
    · have hrec := ih (node / 2) (by omega) (by omega) (show node / 2 ≤ last / 2 by omega)
      rcases hle.eq_or_lt with rfl | hlt
      · rwa [bitPath_eq le_rfl heven]
      · rw [bitPath_lt hlt heven]
        exact List.mem_cons_of_mem _ hrec
    · rw [bitPath_odd hle hodd]
      exact List.mem_cons_self

end HashTree
