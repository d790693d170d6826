import Mathlib.Data.Nat.Size
import Mathlib.Tactic.Linarith

/-! # Machine integers that are not negative

Go's `int` on a 64-bit machine is `Int64`: sums, differences and shifts wrap. On the values that
`Int64.ofNat` represents, which are those that are not negative, halving and the test of the lowest
bit are what they are on ℕ; doubling is so as long as the result is represented.
-/

/-- Halving takes a bit off. -/
theorem Nat.size_div_two_lt {n : ℕ} (h : 0 < n) : (n / 2).size < n.size := by
  obtain ⟨k, hk⟩ : ∃ k, n.size = k + 1 := ⟨n.size - 1, by have := Nat.size_pos.mpr h; omega⟩
  have hn : n < 2 ^ (k + 1) := Nat.size_le.mp (Nat.le_of_eq hk)
  rw [hk, Nat.lt_succ_iff, Nat.size_le]
  rw [Nat.pow_succ] at hn
  omega

namespace Int64

theorem ofNat_shiftLeft_one (n : ℕ) : Int64.ofNat n <<< 1 = Int64.ofNat (2 * n) := by
  have hshift : BitVec.smod (Int64.toBitVec 1) 64 = 1#64 := by decide
  apply Int64.toBitVec.inj
  rw [Int64.toBitVec_shiftLeft, hshift]
  apply BitVec.eq_of_toNat_eq
  simp [Nat.shiftLeft_eq]
  omega

theorem ofNat_shiftRight_one {n : ℕ} (h : n < 2 ^ 63) :
    Int64.ofNat n >>> 1 = Int64.ofNat (n / 2) := by
  have hshift : BitVec.smod (Int64.toBitVec 1) 64 = 1#64 := by decide
  have hmsb : (Int64.ofNat n).toBitVec.msb = false := by
    simp [BitVec.msb_eq_decide]
    omega
  apply Int64.toBitVec.inj
  rw [Int64.toBitVec_shiftRight, hshift, BitVec.sshiftRight_eq',
    BitVec.sshiftRight_eq_of_msb_false hmsb]
  apply BitVec.eq_of_toNat_eq
  simp [Nat.shiftRight_eq_div_pow]
  omega

theorem ofNat_and_one_eq_one_iff (n : ℕ) : Int64.ofNat n &&& 1 = 1 ↔ n % 2 = 1 := by
  have hand : Int64.ofNat n &&& 1 = Int64.ofNat (n % 2) := by
    apply Int64.toBitVec.inj
    rw [Int64.toBitVec_and]
    apply BitVec.eq_of_toNat_eq
    simp [Nat.and_one_is_mod]
    omega
  rw [hand]
  rcases Nat.mod_two_eq_zero_or_one n with h | h
  · rw [h]
    decide
  · rw [h]
    decide

theorem zero_le_iff {x : Int64} : 0 ≤ x ↔ 0 ≤ x.toInt := Int64.le_iff_toInt_le

/-- A value that is not negative is represented. -/
theorem exists_eq_ofNat {x : Int64} (h : 0 ≤ x) : ∃ n < 2 ^ 63, x = Int64.ofNat n :=
  ⟨x.toNatClampNeg, x.toNatClampNeg_lt, (Int64.ofNat_toNatClampNeg x h).symm⟩

theorem ofNat_pos_iff {n : ℕ} (h : n < 2 ^ 63) : 0 < Int64.ofNat n ↔ 0 < n :=
  Int64.ofNat_lt_iff_lt (a := 0) (by decide) h

theorem ofNat_inj {m n : ℕ} (hm : m < 2 ^ 63) (hn : n < 2 ^ 63) :
    Int64.ofNat m = Int64.ofNat n ↔ m = n := by
  rw [← Int64.toInt_inj, Int64.toInt_ofNat_of_lt hm, Int64.toInt_ofNat_of_lt hn, Int.natCast_inj]

theorem exists_eq_ofNat_of_toInt {x : Int64} (h : 0 ≤ x.toInt) : ∃ n < 2 ^ 63, x = Int64.ofNat n :=
  exists_eq_ofNat (zero_le_iff.mpr h)

theorem ofNat_ne_one {n : ℕ} (h : 2 ≤ n) (hn : n < 2 ^ 63) : Int64.ofNat n ≠ 1 := fun heq => by
  have := (ofNat_inj hn (by decide : 1 < 2 ^ 63)).mp heq
  omega

theorem lt_zero_iff {x : Int64} : x < 0 ↔ x.toInt < 0 := Int64.lt_iff_toInt_lt

end Int64
