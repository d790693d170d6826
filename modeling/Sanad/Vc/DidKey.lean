import Sanad.Common.Except
import Sanad.Common.Radix
import Sanad.Common.Utf8
import Sanad.Sigctx

/-! # did:key identifiers

`vc/didkey.go`: the identifier of a principal is its Ed25519 public key, written in base 58 behind a
fixed start. `big.Int` is ℕ. Both directions of the codec are read as digit strings (`Radix`): the
encoder turns the base-256 string of the input into a base-58 string with the same number and the
same count of leading zeros, and the decoder turns it back.
-/

namespace Sanad.Vc

open Radix

/-- `b58alphabet` -/
def b58alphabet : Bytes := Bytes.ascii "123456789ABCDEFGHJKLMNPQRSTUVWXYZabcdefghijkmnopqrstuvwxyz"

/-- `ed25519Prefix` -/
def ed25519Prefix : Bytes := [0xed, 0x01]

/-- `didKeyPrefix` -/
def didKeyPrefix : Bytes := Bytes.ascii "did:key:z"

/-- The character of a base-58 digit: `b58alphabet[d]`. -/
def symbol (d : ℕ) : UInt8 := b58alphabet.getD d 0

/-- `strings.IndexRune(b58alphabet, r)`. The alphabet is ASCII, so no other code point is found in
it, U+FFFD included. -/
def indexRune (r : ℕ) : Option ℕ := b58alphabet.findIdx? fun c => c.toNat = r

/-! ## base58Encode -/

/-- `big.Int.SetBytes` -/
def setBytes (b : Bytes) : ℕ := number 256 (b.map UInt8.toNat)

/-- `big.Int.Bytes`: big endian, without leading zeros. -/
def bytesOf (x : ℕ) : Bytes := (Nat.digits 256 x).reverse.map Nat.toUInt8

/-- The `DivMod` loop: the characters of the remainders, least significant first. -/
def divModLoop (x : ℕ) (out : Bytes) : Bytes :=
  if 0 < x then divModLoop (x / 58) (out ++ [symbol (x % 58)]) else out
termination_by x

/-- `base58Encode` -/
def base58Encode (input : Bytes) : Bytes :=
  let zeros := leading 0 input
  let out := divModLoop (setBytes input) []
  (out ++ List.replicate zeros (symbol 0)).reverse

/-! ## base58Decode -/

/-- The loop over the code points, with the number read so far; it stops at the first character that
is not in the alphabet (`invalid base58 character %q`). -/
def decodeLoop : List ℕ → ℕ → Except ℕ ℕ
  | [], x => .ok x
  | r :: rs, x =>
    match indexRune r with
    | some idx => decodeLoop rs (x * 58 + idx)
    | none => .error r

/-- `base58Decode` -/
def base58Decode (s : Bytes) : Except ℕ Bytes := do
  let x ← decodeLoop (Utf8.runes s) 0
  return List.replicate (leading (symbol 0) s) 0 ++ bytesOf x

/-! ## Identifiers -/

/-- The errors of `PublicKeyFromDID`. -/
inductive DidKeyError where
  /-- `vc: not a base58btc did:key` -/
  | notDidKey
  /-- `vc: bad did:key: invalid base58 character %q` -/
  | badDidKey (r : ℕ)
  /-- `vc: did:key is not an Ed25519 key` -/
  | notEd25519
  deriving DecidableEq, Repr

/-- `EncodeDIDKey` -/
def encodeDIDKey (pub : Bytes) : Bytes := didKeyPrefix ++ base58Encode (ed25519Prefix ++ pub)

/-- `PublicKeyFromDID` -/
def publicKeyFromDID (did : Bytes) : Except DidKeyError Bytes := do
  Except.require (didKeyPrefix <+: did) .notDidKey
  let data ← (base58Decode (did.drop didKeyPrefix.length)).mapError .badDidKey
  Except.require (data.length = ed25519Prefix.length + Sigctx.publicKeySize ∧
    data[0]? = some 0xed ∧ data[1]? = some 0x01) .notEd25519
  return data.drop ed25519Prefix.length

/-! ## The alphabet -/

theorem length_b58alphabet : b58alphabet.length = 58 := by decide

theorem symbol_lt : ∀ d < 58, symbol d < 0x80 := by decide

/-- A character of the alphabet is found where it stands. -/
theorem indexRune_symbol : ∀ d < 58, indexRune (symbol d).toNat = some d := by decide +kernel

/-- A code point is found only if it is the character of a digit. -/
theorem indexRune_eq_some_iff {r d : ℕ} : indexRune r = some d ↔ d < 58 ∧ (symbol d).toNat = r := by
  constructor
  · intro h
    obtain ⟨hd, hr, -⟩ := List.findIdx?_eq_some_iff_getElem.mp h
    rw [decide_eq_true_eq] at hr
    refine ⟨length_b58alphabet ▸ hd, ?_⟩
    rwa [symbol, List.getD_eq_getElem?_getD, List.getElem?_eq_getElem hd, Option.getD_some]
  · rintro ⟨hd, rfl⟩
    exact indexRune_symbol d hd

theorem symbol_injOn {d e : ℕ} (hd : d < 58) (he : e < 58) (h : symbol d = symbol e) : d = e := by
  have hindex := indexRune_symbol d hd
  rw [h, indexRune_symbol e he] at hindex
  exact (Option.some.inj hindex).symm

/-- Leading ones of the text are leading zeros of its digits. -/
theorem leading_map_symbol {ds : List ℕ} (h : ∀ d ∈ ds, d < 58) :
    leading (symbol 0) (ds.map symbol) = leading 0 ds :=
  leading_map fun d hd => symbol_injOn (h d hd) (by decide)

/-! ## Both directions as digit strings -/

theorem divModLoop_eq (x : ℕ) (out : Bytes) :
    divModLoop x out = out ++ (Nat.digits 58 x).map symbol := by
  induction x using Nat.strongRecOn generalizing out with
  | ind x ih =>
    rw [divModLoop]
    by_cases hx : 0 < x
    · rw [if_pos hx, ih (x / 58) (Nat.div_lt_self hx (by decide)),
        Nat.digits_def' (by decide : 1 < 58) hx, List.map_cons, List.append_assoc,
        List.singleton_append]
    · obtain rfl : x = 0 := by omega
      simp

theorem leading_map_toNat (b : Bytes) : leading 0 (b.map UInt8.toNat) = leading 0 b :=
  leading_map (z := (0 : UInt8)) fun _ _ h => UInt8.toNat_inj.mp h

/-- The encoder, as a change of base. -/
theorem base58Encode_eq (b : Bytes) :
    base58Encode b = (digitString 58 (leading 0 b) (setBytes b)).map symbol := by
  simp only [base58Encode, divModLoop_eq, digitString, List.nil_append, List.reverse_append,
    List.reverse_replicate, List.map_append, List.map_replicate, List.map_reverse]

/-- The bytes of a digit string, after so many zeros. -/
theorem replicate_append_bytesOf (zeros x : ℕ) :
    List.replicate zeros 0 ++ bytesOf x = (digitString 256 zeros x).map Nat.toUInt8 := by
  rw [digitString, List.map_append, List.map_replicate]
  rfl

theorem decodeLoop_eq_ok_iff {rs : List ℕ} {x y : ℕ} :
    decodeLoop rs x = .ok y ↔
      ∃ ds : List ℕ, (∀ d ∈ ds, d < 58) ∧ rs = ds.map (fun d => (symbol d).toNat) ∧
        y = ds.foldl (fun x d => x * 58 + d) x := by
  induction rs generalizing x with
  | nil =>
      constructor
      · intro h
        exact ⟨[], by simp, rfl, (Except.ok.inj h).symm⟩
      · rintro ⟨ds, -, hds, rfl⟩
        obtain rfl := List.map_eq_nil_iff.mp hds.symm
        rfl
  | cons r rs ih =>
      rw [decodeLoop]
      constructor
      · intro h
        cases hr : indexRune r with
        | none => simp [hr] at h
        | some d =>
            rw [hr] at h
            obtain ⟨ds, hlt, rfl, rfl⟩ := ih.mp h
            obtain ⟨hd, rfl⟩ := indexRune_eq_some_iff.mp hr
            exact ⟨d :: ds, List.forall_mem_cons.mpr ⟨hd, hlt⟩, rfl, rfl⟩
      · rintro ⟨ds, hlt, hds, rfl⟩
        cases ds with
        | nil => cases hds
        | cons d ds =>
            obtain ⟨rfl, rfl⟩ := List.cons.inj hds
            rw [List.forall_mem_cons] at hlt
            rw [indexRune_symbol d hlt.1]
            exact ih.mpr ⟨ds, hlt.2, rfl, rfl⟩

/-- What the decoder accepts and returns: a text of digits, as a change of base. -/
theorem base58Decode_eq_ok_iff {s b : Bytes} :
    base58Decode s = .ok b ↔
      ∃ ds : List ℕ, (∀ d ∈ ds, d < 58) ∧ s = ds.map symbol ∧
        b = (digitString 256 (leading 0 ds) (number 58 ds)).map Nat.toUInt8 := by
  simp only [base58Decode, Except.bind_eq_ok_iff, decodeLoop_eq_ok_iff]
  constructor
  · rintro ⟨x, ⟨ds, hlt, hrunes, rfl⟩, hb⟩
    -- every code point is in the alphabet, so the text is ASCII and its bytes are those code points
    have hascii : ∀ c ∈ s, c < 0x80 := by
      refine Utf8.lt_of_runes_lt fun r hr => ?_
      rw [hrunes] at hr
      obtain ⟨d, hd, rfl⟩ := List.mem_map.mp hr
      exact UInt8.lt_iff_toNat_lt.mp (symbol_lt d (hlt d hd))
    have hs : s = ds.map symbol := by
      refine List.map_injective_iff.mpr (fun _ _ h => UInt8.toNat_inj.mp h) ?_
      rw [← Utf8.runes_of_lt hascii, hrunes, List.map_map]
      rfl
    refine ⟨ds, hlt, hs, ?_⟩
    rw [← Except.ok.inj hb, hs, leading_map_symbol hlt, replicate_append_bytesOf]
    rfl
  · rintro ⟨ds, hlt, rfl, rfl⟩
    refine ⟨number 58 ds, ⟨ds, hlt, ?_, rfl⟩, ?_⟩
    · rw [Utf8.runes_of_lt, List.map_map]
      · rfl
      · intro c hc
        obtain ⟨d, hd, rfl⟩ := List.mem_map.mp hc
        exact symbol_lt d (hlt d hd)
    · rw [leading_map_symbol hlt, replicate_append_bytesOf]
      rfl

example : base58Decode [0x32, 0xff] = .error Utf8.replacement := by decide

/-! ## Round trips -/

theorem map_toNat_map_toUInt8 {l : List ℕ} (h : ∀ d ∈ l, d < 256) :
    (l.map Nat.toUInt8).map UInt8.toNat = l := by
  rw [List.map_map]
  conv_rhs => rw [← List.map_id l]
  exact List.map_congr_left fun d hd => Utf8.toNat_toUInt8 (h d hd)

/-- The number and the leading zeros of the bytes of a digit string. -/
theorem setBytes_map_toUInt8 {l : List ℕ} (h : ∀ d ∈ l, d < 256) :
    setBytes (l.map Nat.toUInt8) = number 256 l ∧ leading 0 (l.map Nat.toUInt8) = leading 0 l := by
  rw [setBytes, ← leading_map_toNat, map_toNat_map_toUInt8 h]
  exact ⟨rfl, rfl⟩

/-- A byte string is the digit string of its own number. -/
theorem digitString_setBytes (b : Bytes) :
    (digitString 256 (leading 0 b) (setBytes b)).map Nat.toUInt8 = b := by
  have hlt : ∀ d ∈ b.map UInt8.toNat, d < 256 := by
    intro d hd
    obtain ⟨c, -, rfl⟩ := List.mem_map.mp hd
    exact c.toNat_lt
  rw [setBytes, ← leading_map_toNat, digitString_number (by decide) hlt, List.map_map]
  conv_rhs => rw [← List.map_id b]
  exact List.map_congr_left fun c _ => UInt8.ofNat_toNat

theorem base58Decode_base58Encode (b : Bytes) : base58Decode (base58Encode b) = .ok b := by
  refine base58Decode_eq_ok_iff.mpr ⟨digitString 58 (leading 0 b) (setBytes b),
    fun d hd => lt_of_mem_digitString (by decide) hd, base58Encode_eq b, ?_⟩
  rw [leading_digitString, number_digitString, digitString_setBytes]

theorem base58Encode_of_base58Decode {s b : Bytes} (h : base58Decode s = .ok b) :
    base58Encode b = s := by
  obtain ⟨ds, hlt, rfl, rfl⟩ := base58Decode_eq_ok_iff.mp h
  obtain ⟨hnumber, hzeros⟩ := setBytes_map_toUInt8
    (l := digitString 256 (leading 0 ds) (number 58 ds))
    fun d hd => lt_of_mem_digitString (by decide) hd
  rw [base58Encode_eq, hnumber, hzeros, number_digitString, leading_digitString,
    digitString_number (by decide) hlt]

/-- The identifiers that resolve to a key: the one that the key is encoded to. -/
theorem publicKeyFromDID_eq_ok_iff {did pub : Bytes} :
    publicKeyFromDID did = .ok pub ↔
      did = encodeDIDKey pub ∧ pub.length = Sigctx.publicKeySize := by
  simp only [publicKeyFromDID, Except.bind_eq_ok_iff, Except.mapError_eq_ok_iff,
    Except.require_eq_ok_iff]
  constructor
  · rintro ⟨-, ⟨rest, rfl⟩, data, hdata, -, ⟨hlength, hfirst, hsecond⟩, hpub⟩
    rw [List.drop_left] at hdata
    -- the data starts with the two bytes of the prefix
    obtain ⟨pub', rfl⟩ : ∃ pub', data = ed25519Prefix ++ pub' := by
      match data, hfirst, hsecond with
      | _ :: _ :: pub', hfirst, hsecond =>
          refine ⟨pub', ?_⟩
          cases hfirst
          cases hsecond
          rfl
    obtain rfl : pub' = pub := Except.ok.inj hpub
    refine ⟨?_, by simpa using hlength⟩
    rw [encodeDIDKey, base58Encode_of_base58Decode hdata]
  · rintro ⟨rfl, hlength⟩
    refine ⟨(), List.prefix_append _ _, ed25519Prefix ++ pub, ?_, (), ⟨?_, rfl, rfl⟩, rfl⟩
    · rw [encodeDIDKey, List.drop_left, base58Decode_base58Encode]
    · rw [List.length_append, hlength]

/-- One identifier per key: both round trips of the base-58 codec, the identifiers that resolve, and
that no two of them resolve to the same key. -/
theorem one_identifier_per_key :
    (∀ b, base58Decode (base58Encode b) = .ok b) ∧
    (∀ s b, base58Decode s = .ok b → base58Encode b = s) ∧
    (∀ did pub, publicKeyFromDID did = .ok pub ↔
      did = encodeDIDKey pub ∧ pub.length = Sigctx.publicKeySize) ∧
    ∀ did did' pub, publicKeyFromDID did = .ok pub → publicKeyFromDID did' = .ok pub →
      did = did' := by
  refine ⟨base58Decode_base58Encode, fun _ _ => base58Encode_of_base58Decode,
    fun _ _ => publicKeyFromDID_eq_ok_iff, fun did did' pub h h' => ?_⟩
  rw [(publicKeyFromDID_eq_ok_iff.mp h).1, (publicKeyFromDID_eq_ok_iff.mp h').1]

end Sanad.Vc
