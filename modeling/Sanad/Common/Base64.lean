import Mathlib.Data.List.GetD
import Mathlib.Data.List.Nodup
import Sanad.Common.Bytes

/-! # Base64

The standard encoding of RFC 4648 with padding, as Go's `base64.StdEncoding` writes and reads it.
Different byte strings have different encodings, and each comes back from its own. Reading skips line
ends, and ignores the bits of the last symbol that no byte needs.
-/

namespace Base64

/-- The symbols, in the order of their values. -/
def alphabet : Bytes :=
  Bytes.ascii "ABCDEFGHIJKLMNOPQRSTUVWXYZabcdefghijklmnopqrstuvwxyz0123456789+/"

/-- The padding symbol. -/
abbrev pad : UInt8 := 0x3d

/-- The symbol of the six lowest bits of `n`. -/
def symbol (n : ℕ) : UInt8 := alphabet.getD (n % 64) pad

/-- The four symbols for a group of at most three bytes, padded where a byte is missing. -/
def group (b : Bytes) : Bytes :=
  let n := ((b.getD 0 0).toNat * 256 + (b.getD 1 0).toNat) * 256 + (b.getD 2 0).toNat
  [symbol (n / 262144), symbol (n / 4096), if 2 ≤ b.length then symbol (n / 64) else pad,
    if 3 ≤ b.length then symbol n else pad]

/-- The encoding of a byte string, group by group. -/
def encode (b : Bytes) : Bytes := Bytes.rewrite (fun b => (group (b.take 3), 3)) b

theorem symbol_injective {m n : ℕ} (h : symbol m = symbol n) : m % 64 = n % 64 := by
  have hm : m % 64 < alphabet.length := Nat.mod_lt _ (by decide)
  have hn : n % 64 < alphabet.length := Nat.mod_lt _ (by decide)
  have hnodup : alphabet.Nodup := by decide
  rw [symbol, symbol, List.getD_eq_getElem _ _ hm, List.getD_eq_getElem _ _ hn] at h
  exact (hnodup.getElem_inj_iff).mp h

theorem symbol_mem (n : ℕ) : symbol n ∈ alphabet := by
  have hn : n % 64 < alphabet.length := Nat.mod_lt _ (by decide)
  rw [symbol, List.getD_eq_getElem _ _ hn]
  exact List.getElem_mem hn

theorem symbol_ne_pad (n : ℕ) : symbol n ≠ pad := by
  intro h
  have := symbol_mem n
  rw [h] at this
  exact absurd this (by decide)

theorem encode_mem (b : Bytes) : ∀ c ∈ encode b, c ∈ alphabet ∨ c = pad := by
  refine Bytes.rewrite_induction (P := fun out => ∀ c ∈ out, c ∈ alphabet ∨ c = pad) _ ?_ ?_ b
  · intro c hc
    cases hc
  · intro c b out hout d hd
    rcases List.mem_append.mp hd with hd | hd
    · simp only [group, List.mem_cons, List.not_mem_nil, or_false] at hd
      rcases hd with rfl | rfl | rfl | rfl
      · exact .inl (symbol_mem _)
      · exact .inl (symbol_mem _)
      · split
        · exact .inl (symbol_mem _)
        · exact .inr rfl
      · split
        · exact .inl (symbol_mem _)
        · exact .inr rfl
    · exact hout d hd

theorem length_group (b : Bytes) : (group b).length = 4 := rfl

/-- The padding shows the number of bytes of a group. -/
theorem length_eq_of_group_eq {x y : Bytes} (hx : x.length ≤ 3) (hy : y.length ≤ 3) (hx0 : x ≠ [])
    (hy0 : y ≠ []) (h : group x = group y) : x.length = y.length := by
  have hx1 := List.length_pos_iff.mpr hx0
  have hy1 := List.length_pos_iff.mpr hy0
  simp only [group, List.cons.injEq, and_true] at h
  obtain ⟨-, -, h₃, h₄⟩ := h
  have h2 : 2 ≤ x.length ↔ 2 ≤ y.length := by
    by_cases hx2 : 2 ≤ x.length <;> by_cases hy2 : 2 ≤ y.length <;>
      simp [hx2, hy2, symbol_ne_pad, (symbol_ne_pad _).symm] at h₃ ⊢
  have h3 : 3 ≤ x.length ↔ 3 ≤ y.length := by
    by_cases hx3 : 3 ≤ x.length <;> by_cases hy3 : 3 ≤ y.length <;>
      simp [hx3, hy3, symbol_ne_pad, (symbol_ne_pad _).symm] at h₄ ⊢
  omega

/-- The symbols of a group show its bytes. -/
theorem group_injective {x y : Bytes} (hx : x.length ≤ 3) (hy : y.length ≤ 3) (hx0 : x ≠ [])
    (hy0 : y ≠ []) (h : group x = group y) : x = y := by
  have hlen := length_eq_of_group_eq hx hy hx0 hy0 h
  simp only [group, ← hlen, List.cons.injEq, and_true] at h
  obtain ⟨h₁, h₂, h₃, h₄⟩ := h
  have h₁ := symbol_injective h₁
  have h₂ := symbol_injective h₂
  -- a byte that the group lacks counts as zero
  have hzero : ∀ i, x.length ≤ i → (x.getD i 0).toNat = 0 ∧ (y.getD i 0).toNat = 0 := by
    intro i hi
    rw [List.getD_eq_default _ _ hi, List.getD_eq_default _ _ (hlen ▸ hi)]
    exact ⟨rfl, rfl⟩
  have hlt : ∀ i, (x.getD i 0).toNat < 256 ∧ (y.getD i 0).toNat < 256 := fun i =>
    ⟨UInt8.toNat_lt _, UInt8.toNat_lt _⟩
  have h0 := hlt 0
  have h1 := hlt 1
  have h2 := hlt 2
  have hbytes : (x.getD 0 0).toNat = (y.getD 0 0).toNat ∧
      (x.getD 1 0).toNat = (y.getD 1 0).toNat ∧ (x.getD 2 0).toNat = (y.getD 2 0).toNat := by
    by_cases hx2 : 2 ≤ x.length
    · rw [if_pos hx2, if_pos hx2] at h₃
      have h₃ := symbol_injective h₃
      by_cases hx3 : 3 ≤ x.length
      · rw [if_pos hx3, if_pos hx3] at h₄
        have h₄ := symbol_injective h₄
        omega
      · have := hzero 2 (by omega)
        omega
    · have := hzero 1 (by omega)
      have := hzero 2 (by omega)
      omega
  refine List.ext_getElem hlen fun i hi hi' => ?_
  have hi3 : i = 0 ∨ i = 1 ∨ i = 2 := by omega
  rw [← List.getD_eq_getElem x 0 hi, ← List.getD_eq_getElem y 0 hi', ← UInt8.toNat_inj]
  rcases hi3 with rfl | rfl | rfl
  · exact hbytes.1
  · exact hbytes.2.1
  · exact hbytes.2.2

theorem encode_cons (c : UInt8) (b : Bytes) :
    encode (c :: b) = group ((c :: b).take 3) ++ encode ((c :: b).drop 3) :=
  Bytes.rewrite_cons _ c b

/-- Different byte strings have different encodings. -/
theorem encode_injective {x y : Bytes} (h : encode x = encode y) : x = y := by
  induction hn : x.length using Nat.strongRecOn generalizing x y with
  | ind n ih =>
    match x, y with
    | [], [] => rfl
    | [], d :: y => rw [encode_cons] at h; cases h
    | c :: x, [] => rw [encode_cons] at h; cases h
    | c :: x, d :: y =>
        rw [encode_cons, encode_cons] at h
        obtain ⟨hgroup, hrest⟩ := List.append_inj h (by rw [length_group, length_group])
        have htake := group_injective (List.length_take_le _ _) (List.length_take_le _ _) (by simp)
          (by simp) hgroup
        have hdrop := ih ((c :: x).drop 3).length (by simp at hn ⊢; omega) hrest rfl
        rw [← List.take_append_drop 3 (c :: x), htake, hdrop, List.take_append_drop]

/-! ## Reading -/

/-- The value of a symbol. -/
def value (c : UInt8) : Option ℕ := alphabet.idxOf? c

/-- The bytes of groups of four symbols, the last of which may be padded. -/
def decodeGroups : Bytes → Option Bytes
  | [] => some []
  | s₁ :: s₂ :: s₃ :: s₄ :: rest => do
    let a ← value s₁
    let b ← value s₂
    if s₄ = pad then
      if rest ≠ [] then none
      else if s₃ = pad then some [(a * 4 + b / 16).toUInt8]
      else
        let c ← value s₃
        some [(a * 4 + b / 16).toUInt8, (b % 16 * 16 + c / 4).toUInt8]
    else
      let c ← value s₃
      let d ← value s₄
      let bytes ← decodeGroups rest
      some ((a * 4 + b / 16).toUInt8 :: (b % 16 * 16 + c / 4).toUInt8 :: (c % 4 * 64 + d).toUInt8 :: bytes)
  | _ => none

/-- `StdEncoding.DecodeString` -/
def decode (s : Bytes) : Option Bytes := decodeGroups (s.filter fun c => c ≠ 0x0a ∧ c ≠ 0x0d)

theorem value_symbol (n : ℕ) : value (symbol n) = some (n % 64) := by
  have hall : ∀ n < 64, value (symbol n) = some n := by decide +kernel
  have hmod : symbol n = symbol (n % 64) := by rw [symbol, symbol, Nat.mod_mod]
  rw [hmod]
  exact hall (n % 64) (Nat.mod_lt n (by decide))

theorem decodeGroups_encode (b : Bytes) : decodeGroups (encode b) = some b := by
  have hbyte : ∀ (a : UInt8) (n : ℕ), n = a.toNat → n.toUInt8 = a := by
    rintro a n rfl
    exact UInt8.ofNat_toNat
  induction hn : b.length using Nat.strongRecOn generalizing b with
  | ind n ih =>
    match b with
    | [] => rfl
    | [x] =>
        have := x.toNat_lt
        rw [encode_cons]
        show decodeGroups [symbol _, symbol _, pad, pad] = _
        simp only [decodeGroups, value_symbol, Option.bind_eq_bind, Option.bind_some, List.getD_cons_zero,
          List.take_succ_cons, List.take_nil, if_true, ne_eq, not_true_eq_false, if_false]
        rw [hbyte x _ (by simp; omega)]
    | [x, y] =>
        have := x.toNat_lt
        have := y.toNat_lt
        rw [encode_cons]
        show decodeGroups [symbol _, symbol _, symbol _, pad] = _
        simp only [decodeGroups, value_symbol, Option.bind_eq_bind, Option.bind_some, if_true, ne_eq,
          not_true_eq_false, if_false, symbol_ne_pad]
        rw [hbyte x _ (by simp; omega), hbyte y _ (by simp; omega)]
    | x :: y :: z :: rest =>
        have := x.toNat_lt
        have := y.toNat_lt
        have := z.toNat_lt
        rw [List.length_cons, List.length_cons, List.length_cons] at hn
        have hrest := ih rest.length (by omega) rest rfl
        rw [encode_cons]
        show decodeGroups (symbol _ :: symbol _ :: symbol _ :: symbol _ :: encode rest) = _
        simp only [decodeGroups, value_symbol, Option.bind_eq_bind, Option.bind_some, symbol_ne_pad,
          if_false, hrest]
        rw [hbyte x _ (by simp; omega), hbyte y _ (by simp; omega), hbyte z _ (by simp; omega)]

/-- What was encoded decodes to itself. -/
theorem decode_encode (b : Bytes) : decode (encode b) = some b := by
  have hfilter : ((encode b).filter fun c => c ≠ 0x0a ∧ c ≠ 0x0d) = encode b := by
    refine List.filter_eq_self.mpr fun c hc => ?_
    have hall : ∀ c ∈ alphabet, c ≠ 0x0a ∧ c ≠ 0x0d := by decide +kernel
    rcases encode_mem b c hc with hc | rfl
    · simpa using hall c hc
    · decide
  rw [decode, hfilter, decodeGroups_encode]

end Base64
