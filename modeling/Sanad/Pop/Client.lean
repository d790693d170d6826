import Sanad.Common.Json.Plain
import Sanad.Pop

/-! # Making a proof

`internal/pop`: the side that makes a proof, and when the other side accepts it. The payload is read
back as it was written, so `Check` accepts the proof that `Sign` makes for a request exactly if the
proof is fresh, its id is new, and the method and the target are valid UTF-8: other bytes are replaced
in the payload, and no longer match those of the request.
-/

namespace Sanad.Pop

open Json

/-! ## The client -/

/-- The errors of `NewBinding` and `Sign`. -/
inductive SignError where
  /-- `pop: generating jti: %w` -/
  | generatingJTI (cause : Bytes)
  /-- `pop: invalid private key` -/
  | invalidKey
  deriving DecidableEq, Repr

/-- The 128 bits that `NewBinding` reads from `crypto/rand`. -/
abbrev Random := { b : Bytes // b.length = 16 }

/-- What a proof is made for: the request line, the principal token and the body. -/
structure Sent where
  method : Bytes
  target : Bytes
  token : Bytes
  body : Bytes
  deriving DecidableEq, Repr

/-- `NewBinding`, with what `rand.Read` returns. -/
def newBinding (sha256 : Bytes → Bytes) (r : Sent) (now : ℤ) (random : Except Bytes Random) :
    Except SignError Binding := do
  let jti ← random.mapError .generatingJTI
  .ok
    { ath := hash sha256 r.token
      bh := hash sha256 r.body
      htm := r.method
      htu := r.target
      iat := Time.unix now
      jti := Base64Url.encode jti.1 }

/-- A binding as JSON, without HTML escaping. -/
def Binding.json (b : Binding) : Json :=
  .ofFields
    [("ath", .ofPlainString b.ath), ("bh", .ofPlainString b.bh), ("htm", .ofPlainString b.htm),
      ("htu", .ofPlainString b.htu), ("iat", .ofInt b.iat), ("jti", .ofPlainString b.jti)]

/-- `Encode`. The line feed that the encoder appends is trimmed again. -/
def Binding.encode (b : Binding) : Bytes := render b.json

/-- The header with a payload and a signature. -/
def proofHeader (payload sig : Bytes) : Bytes :=
  Base64Url.encode payload ++ Bytes.ascii "." ++ Base64Url.encode sig

/-- `Sign` -/
def sign (S : SignatureScheme) (ctx : Sigctx.Context) (key : Bytes) (b : Binding) :
    Except SignError Bytes := do
  Except.require (key.length = Sigctx.privateKeySize) .invalidKey
  .ok (proofHeader b.encode (Sigctx.sign S ctx key b.encode))

/-- `Verifier.Check` on a cache that no other call uses meanwhile. -/
def Verifier.checkWith (S : SignatureScheme) (sha256 : Bytes → Bytes) (v : Verifier) (c : ReplayCache)
    (p : Presented) (now : ℤ) : ReplayCache × Except PopError Unit :=
  match v.check S sha256 p now with
  | .ok jti => c.use jti now
  | .error e => (c, .error e)

/-! ## The payload comes back -/

/-- A binding after it was written and read. -/
def Binding.reread (b : Binding) : Binding where
  ath := rereadPlain b.ath
  bh := rereadPlain b.bh
  htm := rereadPlain b.htm
  htu := rereadPlain b.htu
  iat := b.iat
  jti := rereadPlain b.jti

theorem Binding.decode_encode {b : Binding} (h : Time.IsInt64 b.iat) :
    Binding.decode b.encode = some b.reread := by
  have hdepth : b.json.depth ≤ maxNestingDepth :=
    (depth_ofFields_le (n := 0) (by simp [ofPlainString, ofInt, depth])).trans (by decide)
  have hiat : decodeInt64 0 (.ofInt b.iat) = some b.iat := by
    obtain ⟨hlow, hhigh⟩ := h
    rw [Time.maxDuration] at hlow hhigh
    exact decodeInt64_ofInt (by omega) (by omega) 0
  rw [Binding.decode, Binding.encode, unmarshal_render hdepth, Option.bind_some, Binding.json,
    decodeRecord_cons (f := BindingField.ath) rfl, Binding.store, decodeText_ofPlainString,
    Option.map_some, Option.bind_some, decodeRecord_cons (f := BindingField.bh) rfl, Binding.store,
    decodeText_ofPlainString, Option.map_some, Option.bind_some,
    decodeRecord_cons (f := BindingField.htm) rfl, Binding.store, decodeText_ofPlainString,
    Option.map_some, Option.bind_some, decodeRecord_cons (f := BindingField.htu) rfl, Binding.store,
    decodeText_ofPlainString, Option.map_some, Option.bind_some,
    decodeRecord_cons (f := BindingField.iat) rfl, Binding.store, hiat, Option.map_some,
    Option.bind_some, decodeRecord_field (f := BindingField.jti) rfl, Binding.store,
    decodeText_ofPlainString, Option.map_some, Binding.reread]

theorem cut_append {sep : UInt8} {a : Bytes} (h : sep ∉ a) (b : Bytes) :
    cut sep (a ++ sep :: b) = some (a, b) := by
  induction a with
  | nil => simp [cut]
  | cons c a ih =>
      rw [List.mem_cons, not_or] at h
      rw [List.cons_append, cut, if_neg (Ne.symm h.1), ih h.2]
      rfl

/-- The parts of a header are those that it was made of. -/
theorem parseProof_proofHeader (payload sig : Bytes) :
    parseProof (proofHeader payload sig) = .ok (payload, sig) := by
  have hdot : ∀ b, 0x2e ∉ Base64Url.encode b := fun b h => (Base64Url.encode_ascii b _ h).2 rfl
  have hcut : cut 0x2e (proofHeader payload sig) =
      some (Base64Url.encode payload, Base64Url.encode sig) := by
    rw [proofHeader, List.append_assoc]
    exact cut_append (hdot payload) _
  simp only [parseProof, hcut, Except.bind_eq_ok_iff, Except.ofOption_eq_ok_iff]
  exact ⟨(Base64Url.encode payload, Base64Url.encode sig), by simp [Option.filter, hdot], payload,
    Base64Url.decode_encode payload, sig, Base64Url.decode_encode sig, rfl⟩

/-! ## When a proof is accepted -/

theorem rereadPlain_encode (b : Bytes) : rereadPlain (Base64Url.encode b) = Base64Url.encode b :=
  rereadPlain_eq_self_iff.mpr
    (Utf8.valid_of_forall_lt fun c hc => (Base64Url.encode_ascii b c hc).1)

section

variable {S : SignatureScheme} {sha256 : Bytes → Bytes} {v : Verifier}

/-- `Check` up to the reading of the clock, on a header that is made of a payload and a signature. -/
theorem bind_proofHeader_iff {pub payload sig method token body : Bytes} {url : Option URL}
    {b : Binding} :
    v.bind S sha256 ⟨pub, proofHeader payload sig, some (method, url), body, token⟩ = .ok b ↔
      token ≠ [] ∧ Sigctx.verify S v.ctx pub payload sig = true ∧ Binding.decode payload = some b ∧
        b.htm = method ∧ b.htu = target url ∧ b.ath = hash sha256 token ∧ b.bh = hash sha256 body ∧
        b.iat ≠ 0 := by
  have hne : proofHeader payload sig ≠ [] := by simp [proofHeader, Bytes.ascii]
  simp only [Verifier.bind, Except.bind_eq_ok_iff, Except.ofOption_eq_ok_iff,
    Except.require_eq_ok_iff, parseProof_proofHeader]
  constructor
  · rintro ⟨-, -, -, ⟨⟩, -, htoken, -, ⟨⟩, -, hverify, b', hdecode, -, hhtm, -, hhtu, -, hath, -, hbh, -,
      hiat, ⟨⟩⟩
    exact ⟨htoken, hverify, hdecode, hhtm, hhtu, hath, hbh, hiat⟩
  · rintro ⟨htoken, hverify, hdecode, hhtm, hhtu, hath, hbh, hiat⟩
    exact ⟨(), hne, _, rfl, (), htoken, _, rfl, (), hverify, b, hdecode, (), hhtm, (), hhtu, (), hath,
      (), hbh, (), hiat, rfl⟩

theorem fresh_eq_ok_iff {b : Binding} {now : ℤ} (hmax : v.maxAge < Time.maxDuration) :
    v.fresh b now = .ok () ↔ Time.ofUnix b.iat ≤ now + v.skew ∧ now ≤ Time.ofUnix b.iat + v.maxAge ∧
      b.jti.length ≠ 0 ∧ b.jti.length ≤ maxJTI := by
  have hpos := v.maxAge_pos
  have hsub := Time.sub_le_iff (t := now) (u := Time.ofUnix b.iat) (d := v.maxAge)
    (by rw [Time.maxDuration]; omega) hmax
  simp only [Verifier.fresh, Except.check_bind_eq_ok_iff, Except.require_eq_ok_iff, hsub]

theorem check_eq_ok_iff {p : Presented} {jti : Bytes} {now : ℤ} :
    v.check S sha256 p now = .ok jti ↔
      ∃ b, v.bind S sha256 p = .ok b ∧ v.fresh b now = .ok () ∧ b.jti = jti := by
  rw [Verifier.check, Except.bind_eq_ok_iff]
  simp only [Except.check_bind_eq_ok_iff, Except.ok.injEq]

/-- What `newBinding` gives is read back with its method and its target as they are read back. -/
theorem reread_newBinding {r : Sent} {sent : ℤ} {random : Random} {b : Binding}
    (hb : newBinding sha256 r sent (.ok random) = .ok b) :
    Time.IsInt64 b.iat ∧ b.reread = { b with htm := rereadPlain r.method, htu := rereadPlain r.target } ∧
      b.ath = hash sha256 r.token ∧ b.bh = hash sha256 r.body ∧ b.iat = Time.unix sent ∧
      b.jti = Base64Url.encode random.1 := by
  obtain rfl := Except.ok.inj hb
  refine ⟨Time.isInt64_wrap _, ?_, rfl, rfl, rfl, rfl⟩
  simp only [Binding.reread, hash, rereadPlain_encode]

/-- The checks that `Check` makes before it comes to the cache, on a proof that `Sign` has made. -/
theorem check_sign_iff {r : Sent} {url : Option URL} {key header : Bytes} {sent now : ℤ}
    {random : Random} {b : Binding} (hmax : v.maxAge < Time.maxDuration)
    (hsize : (S.publicKey key).length = Sigctx.publicKeySize)
    (hkey : ∀ msg, S.verify (S.publicKey key) msg (S.sign key msg) = true)
    (hb : newBinding sha256 r sent (.ok random) = .ok b) (hheader : sign S v.ctx key b = .ok header)
    (htoken : r.token ≠ []) (htarget : r.target = target url) {jti : Bytes} :
    v.check S sha256 ⟨S.publicKey key, header, some (r.method, url), r.body, r.token⟩ now = .ok jti ↔
      (Utf8.valid r.method = true ∧ Utf8.valid r.target = true) ∧ Time.unix sent ≠ 0 ∧
        Time.ofUnix (Time.unix sent) ≤ now + v.skew ∧
        now ≤ Time.ofUnix (Time.unix sent) + v.maxAge ∧ jti = b.jti := by
  obtain ⟨hrange, hreread, hath, hbh, hiat, hjti⟩ := reread_newBinding hb
  rw [sign, Except.check_bind_eq_ok_iff] at hheader
  obtain rfl := Except.ok.inj hheader.2
  have hlen : b.jti.length ≠ 0 ∧ b.jti.length ≤ maxJTI := by
    rw [hjti, Base64Url.length_encode, random.2]
    decide
  have hverify := Sigctx.verify_sign hsize hkey v.ctx b.encode
  simp only [check_eq_ok_iff, bind_proofHeader_iff, fresh_eq_ok_iff hmax, hverify,
    Binding.decode_encode hrange, Option.some.injEq, hreread, true_and]
  constructor
  · rintro ⟨b', ⟨-, rfl, hhtm, hhtu, -, -, hne⟩, ⟨hstarted, hcurrent, -⟩, rfl⟩
    rw [← htarget] at hhtu
    rw [← hiat]
    exact ⟨⟨rereadPlain_eq_self_iff.mp hhtm, rereadPlain_eq_self_iff.mp hhtu⟩, hne, hstarted, hcurrent,
      rfl⟩
  · rintro ⟨⟨hmethod, htgt⟩, hne, hstarted, hcurrent, rfl⟩
    rw [← hiat] at hne hstarted hcurrent
    exact ⟨_, ⟨htoken, rfl, rereadPlain_eq_self_iff.mpr hmethod,
      (rereadPlain_eq_self_iff.mpr htgt).trans htarget, hath, hbh, hne⟩,
      ⟨hstarted, hcurrent, hlen⟩, rfl⟩

end

/-- A cache takes an id exactly if neither generation has it and there is room for it. -/
theorem use_eq_ok_iff {c : ReplayCache} {jti : Bytes} {now : ℤ} :
    (c.use jti now).2 = .ok () ↔ jti ∉ (c.rotate now).cur ∧ jti ∉ (c.rotate now).prev ∧
      (c.rotate now).cur.length + (c.rotate now).prev.length < (c.rotate now).max := by
  unfold ReplayCache.use
  dsimp only
  split_ifs with hcur hprev hfull
  · simp [hcur]
  · simp [hprev]
  · simp only [false_iff]
    omega
  · simp only [true_iff]
    exact ⟨hcur, hprev, by omega⟩

namespace Sample

/-- A client that calls a tool, with a query that HTML would give a meaning. -/
def sent : Sent := ⟨Bytes.ascii "POST", Bytes.ascii "/servers/a/mcp?x=1&y=<2>", Bytes.ascii "t", [0xff]⟩

def sentURL : URL := ⟨Bytes.ascii "/servers/a/mcp", Bytes.ascii "x=1&y=<2>"⟩

def random : Random := ⟨List.replicate 16 9, rfl⟩

def clientKey : Bytes := List.replicate 64 5

end Sample

end Sanad.Pop
