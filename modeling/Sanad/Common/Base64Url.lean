import Mathlib.Data.List.GetD
import Sanad.Common.Bytes

/-! # Base64 in URLs

The unpadded encoding of RFC 4648 with the alphabet for URLs, as Go's `base64.RawURLEncoding` writes
and reads it. Reading skips line ends, and ignores the bits of the last symbol that no byte needs.
-/

namespace Base64Url

/-- The symbols, in the order of their values. -/
def alphabet : Bytes :=
  Bytes.ascii "ABCDEFGHIJKLMNOPQRSTUVWXYZabcdefghijklmnopqrstuvwxyz0123456789-_"

/-- The symbol of a value below 64. -/
def symbol (n : ℕ) : UInt8 := alphabet.getD n 0

/-- The value of a symbol. -/
def value (c : UInt8) : Option ℕ := alphabet.idxOf? c

/-- A byte string in groups of six bits; the last group is filled up with zeros. -/
def sextets : Bytes → List ℕ
  | [] => []
  | [a] => [a.toNat / 4, a.toNat % 4 * 16]
  | [a, b] => [a.toNat / 4, a.toNat % 4 * 16 + b.toNat / 16, b.toNat % 16 * 4]
  | a :: b :: c :: rest =>
    a.toNat / 4 :: (a.toNat % 4 * 16 + b.toNat / 16) :: (b.toNat % 16 * 4 + c.toNat / 64) ::
      c.toNat % 64 :: sextets rest

/-- The bytes of groups of six bits, none if a single group is left over. -/
def ofSextets : List ℕ → Option Bytes
  | [] => some []
  | [_] => none
  | [p, q] => some [(p * 4 + q / 16).toUInt8]
  | [p, q, r] => some [(p * 4 + q / 16).toUInt8, (q % 16 * 16 + r / 4).toUInt8]
  | p :: q :: r :: s :: rest =>
    (ofSextets rest).map fun b =>
      (p * 4 + q / 16).toUInt8 :: (q % 16 * 16 + r / 4).toUInt8 :: (r % 4 * 64 + s).toUInt8 :: b

/-- `RawURLEncoding.EncodeToString` -/
def encode (b : Bytes) : Bytes := (sextets b).map symbol

/-- `RawURLEncoding.DecodeString` -/
def decode (s : Bytes) : Option Bytes :=
  ((s.filter fun c => c ≠ 0x0a ∧ c ≠ 0x0d).mapM value).bind ofSextets

theorem sextets_lt (b : Bytes) : ∀ n ∈ sextets b, n < 64 := by
  induction b using sextets.induct with
  | case1 => simp [sextets]
  | case2 a =>
      have := a.toNat_lt
      simp [sextets]
      omega
  | case3 a b =>
      have := a.toNat_lt
      have := b.toNat_lt
      simp [sextets]
      omega
  | case4 a b c rest ih =>
      have := a.toNat_lt
      have := b.toNat_lt
      have := c.toNat_lt
      intro n hn
      rw [sextets] at hn
      simp only [List.mem_cons] at hn
      rcases hn with rfl | rfl | rfl | rfl | hn
      · omega
      · omega
      · omega
      · omega
      · exact ih n hn

/-- The bytes come back out of their groups of six bits. -/
theorem ofSextets_sextets (b : Bytes) : ofSextets (sextets b) = some b := by
  have hbyte : ∀ (a : UInt8) (n : ℕ), n = a.toNat → n.toUInt8 = a := by
    rintro a n rfl
    exact UInt8.ofNat_toNat
  induction b using sextets.induct with
  | case1 => rfl
  | case2 a =>
      rw [sextets, ofSextets, hbyte a _ (by omega)]
  | case3 a b =>
      have := b.toNat_lt
      rw [sextets, ofSextets, hbyte a _ (by omega), hbyte b _ (by omega)]
  | case4 a b c rest ih =>
      have := b.toNat_lt
      have := c.toNat_lt
      rw [sextets, ofSextets, ih, hbyte a _ (by omega), hbyte b _ (by omega), hbyte c _ (by omega)]
      rfl

theorem value_symbol {n : ℕ} (h : n < 64) : value (symbol n) = some n := by
  have hall : ∀ n < 64, value (symbol n) = some n := by decide +kernel
  exact hall n h

theorem encode_mem (b : Bytes) : ∀ c ∈ encode b, c ∈ alphabet := by
  intro c hc
  obtain ⟨n, hn, rfl⟩ := List.mem_map.mp hc
  have hlt : n < alphabet.length := sextets_lt b n hn
  rw [symbol, List.getD_eq_getElem _ _ hlt]
  exact List.getElem_mem hlt

/-- What was encoded decodes to itself. -/
theorem decode_encode (b : Bytes) : decode (encode b) = some b := by
  have hfilter : ((encode b).filter fun c => c ≠ 0x0a ∧ c ≠ 0x0d) = encode b := by
    refine List.filter_eq_self.mpr fun c hc => ?_
    have hall : ∀ c ∈ alphabet, c ≠ 0x0a ∧ c ≠ 0x0d := by decide +kernel
    simpa using hall c (encode_mem b c hc)
  have hvalues : ∀ ns : List ℕ, (∀ n ∈ ns, n < 64) → (ns.map symbol).mapM value = some ns := by
    intro ns hns
    induction ns with
    | nil => rfl
    | cons n ns ih =>
        rw [List.map_cons, List.mapM_cons, value_symbol (hns n List.mem_cons_self),
          ih fun m hm => hns m (List.mem_cons_of_mem n hm)]
        rfl
  rw [decode, hfilter, encode, hvalues _ (sextets_lt b), Option.bind_some, ofSextets_sextets]

theorem length_sextets (b : Bytes) : (sextets b).length = (b.length * 4 + 2) / 3 := by
  induction b using sextets.induct with
  | case1 => rfl
  | case2 a => simp [sextets]
  | case3 a b => simp [sextets]
  | case4 a b c rest ih =>
      simp only [sextets, List.length_cons, ih]
      omega

/-- Every three bytes take four symbols. -/
theorem length_encode (b : Bytes) : (encode b).length = (b.length * 4 + 2) / 3 := by
  rw [encode, List.length_map, length_sextets]

/-- What is encoded is ASCII, without a full stop. -/
theorem encode_ascii (b : Bytes) : ∀ c ∈ encode b, c < 0x80 ∧ c ≠ 0x2e := by
  have hall : ∀ c ∈ alphabet, c < 0x80 ∧ c ≠ 0x2e := by decide +kernel
  exact fun c hc => hall c (encode_mem b c hc)

end Base64Url
