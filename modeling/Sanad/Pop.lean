import Mathlib.Logic.Function.Basic
import Sanad.Common.Base64Url
import Sanad.Common.Except
import Sanad.Common.Json.Record
import Sanad.Sigctx
import Sanad.Types

/-! # Proofs of possession

`internal/pop`: the verification of a proof that is bound to one request, and the cache that refuses
the second presentation of a proof. The cache keeps two generations of proof ids, and turns them over
on the clock values of the requests that reach it.
-/

namespace Sanad.Pop

/-! ## Bindings -/

/-- `DefaultMaxAge` -/
def defaultMaxAge : ℤ := 30 * Time.second

/-- `DefaultSkew` -/
def defaultSkew : ℤ := 5 * Time.second

/-- `DefaultCacheEntries` -/
def defaultCacheEntries : ℤ := 65536

/-- `MaxJTI` -/
def maxJTI : ℕ := 128

/-- `Binding`: what a proof commits to. -/
structure Binding where
  ath : Bytes
  bh : Bytes
  htm : Bytes
  htu : Bytes
  iat : ℤ
  jti : Bytes
  deriving DecidableEq, Repr

/-- The fields of `Binding`. -/
inductive BindingField where
  | ath
  | bh
  | htm
  | htu
  | iat
  | jti

def bindingFields : List (Bytes × BindingField) :=
  [(Bytes.ascii "ath", .ath), (Bytes.ascii "bh", .bh), (Bytes.ascii "htm", .htm),
    (Bytes.ascii "htu", .htu), (Bytes.ascii "iat", .iat), (Bytes.ascii "jti", .jti)]

/-- Decode a member into its field. -/
def Binding.store (f : BindingField) (v : Json) (b : Binding) : Option Binding :=
  match f with
  | .ath => (Json.decodeText b.ath v).map fun s => { b with ath := s }
  | .bh => (Json.decodeText b.bh v).map fun s => { b with bh := s }
  | .htm => (Json.decodeText b.htm v).map fun s => { b with htm := s }
  | .htu => (Json.decodeText b.htu v).map fun s => { b with htu := s }
  | .iat => (Json.decodeInt64 b.iat v).map fun z => { b with iat := z }
  | .jti => (Json.decodeText b.jti v).map fun s => { b with jti := s }

/-- `json.Unmarshal` of a payload. -/
def Binding.decode (payload : Bytes) : Option Binding :=
  (Json.unmarshal payload).bind (Json.decodeRecord bindingFields Binding.store ⟨[], [], [], [], 0, []⟩)

/-- `url.URL`, as far as it is read: what `EscapedPath` returns, and the raw query. -/
structure URL where
  escapedPath : Bytes
  rawQuery : Bytes
  deriving DecidableEq, Repr

/-- `Target`: the origin form of a request target. -/
def target : Option URL → Bytes
  | none => []
  | some u =>
    (if u.escapedPath = [] then Bytes.ascii "/" else u.escapedPath) ++
      (if u.rawQuery ≠ [] then Bytes.ascii "?" ++ u.rawQuery else [])

/-- `Hash`, over SHA-256. -/
def hash (sha256 : Bytes → Bytes) (b : Bytes) : Bytes := Base64Url.encode (sha256 b)

/-! ## The replay cache -/

/-- The errors of the package. -/
inductive PopError where
  /-- `pop: missing proof` -/
  | missingProof
  /-- `pop: no request to bind the proof to` -/
  | noRequest
  /-- `pop: no principal token to bind the proof to` -/
  | noToken
  /-- `pop: malformed proof (want base64url(payload).base64url(signature))` -/
  | malformed
  /-- `pop: bad proof payload encoding: %w` -/
  | payloadEncoding
  /-- `pop: bad proof signature encoding: %w` -/
  | signatureEncoding
  /-- `pop: proof signature is invalid` -/
  | badSignature
  /-- `pop: bad proof payload: %w` -/
  | badPayload
  /-- `pop: proof is bound to method %q, not %q` -/
  | wrongMethod (bound method : Bytes)
  /-- `pop: proof is bound to target %q, not %q` -/
  | wrongTarget (bound target : Bytes)
  /-- `pop: proof is bound to a different principal token` -/
  | wrongToken
  /-- `pop: proof is bound to a different request body` -/
  | wrongBody
  /-- `ErrStale`, with `no iat` -/
  | noIat
  /-- `ErrStale`, with `iat is %s in the future (skew allowance %s)`; the first is rounded to seconds.
  -/
  | inFuture (ahead skew : ℤ)
  /-- `ErrStale`, with `iat is %s old (max age %s)`; the first is rounded to seconds. -/
  | tooOld (age maxAge : ℤ)
  /-- `pop: proof has an unusable jti (%d bytes, max %d)` -/
  | badJTI (length maximum : ℕ)
  /-- `ErrReplayed`: `pop: proof identifier has already been used` -/
  | replayed
  /-- `ErrCacheFull`: `pop: replay cache is full` -/
  | cacheFull
  deriving DecidableEq, Repr

/-- `ReplayCache`: the keys of the two maps, which are inserted once each. -/
structure ReplayCache where
  window : ℤ
  max : ℤ
  rotated : ℤ
  cur : List Bytes
  prev : List Bytes

/-- `NewReplayCache` -/
def ReplayCache.new (window max : ℤ) : ReplayCache where
  window := if window ≤ 0 then defaultMaxAge + defaultSkew else window
  max := if max ≤ 0 then defaultCacheEntries else max
  rotated := 0
  cur := []
  prev := []

/-- `ReplayCache.rotate` -/
def ReplayCache.rotate (c : ReplayCache) (now : ℤ) : ReplayCache :=
  if c.rotated = 0 then { c with rotated := now }
  else
    let elapsed := Time.sub now c.rotated
    if elapsed < c.window then c
    else
      { c with
        prev := if Time.wrap (2 * c.window) ≤ elapsed then [] else c.cur
        cur := []
        rotated := now }

/-- `ReplayCache.Use`: the cache is turned over in any case. -/
def ReplayCache.use (c : ReplayCache) (jti : Bytes) (now : ℤ) :
    ReplayCache × Except PopError Unit :=
  let c := c.rotate now
  if jti ∈ c.cur then (c, .error .replayed)
  else if jti ∈ c.prev then (c, .error .replayed)
  else if c.max ≤ c.cur.length + c.prev.length then (c, .error .cacheFull)
  else ({ c with cur := jti :: c.cur }, .ok ())

/-! ## The verifier -/

/-- `Verifier`, without its clock and its cache. -/
structure Verifier where
  ctx : Sigctx.Context
  maxAge : ℤ
  skew : ℤ
  entries : ℤ
  maxAge_pos : 0 < maxAge
  skew_nonneg : 0 ≤ skew

/-- `Option`. The clock that `WithClock` sets is the one whose values are given to `check`. -/
inductive VerifierOption where
  | withWindow (maxAge skew : ℤ)
  | withCacheEntries (n : ℤ)

/-- Apply an option. -/
def Verifier.apply (v : Verifier) : VerifierOption → Verifier
  | .withWindow maxAge skew =>
    { v with
      maxAge := if 0 < maxAge then maxAge else v.maxAge
      skew := if 0 ≤ skew then skew else v.skew
      maxAge_pos := by
        split
        · assumption
        · exact v.maxAge_pos
      skew_nonneg := by
        split
        · assumption
        · exact v.skew_nonneg }
  | .withCacheEntries n => if 0 < n then { v with entries := n } else v

/-- `NewVerifier` -/
def Verifier.new (ctx : Sigctx.Context) (opts : List VerifierOption) : Verifier :=
  opts.foldl Verifier.apply
    ⟨ctx, defaultMaxAge, defaultSkew, defaultCacheEntries, by decide, by decide⟩

/-- `Verifier.window` -/
def Verifier.window (v : Verifier) : ℤ := Time.wrap (v.maxAge + v.skew)

/-- The cache of a new verifier. -/
def Verifier.cache (v : Verifier) : ReplayCache := .new v.window v.entries

/-- `strings.Cut` at a byte. -/
def cut (sep : UInt8) : Bytes → Option (Bytes × Bytes)
  | [] => none
  | c :: b => if c = sep then some ([], b) else (cut sep b).map fun (x, y) => (c :: x, y)

/-- The payload and the signature of a proof header. -/
def parseProof (header : Bytes) : Except PopError (Bytes × Bytes) := do
  let (rawPayload, rawSig) ← Except.ofOption ((cut 0x2e header).filter fun p => 0x2e ∉ p.2) .malformed
  let payload ← Except.ofOption (Base64Url.decode rawPayload) .payloadEncoding
  let sig ← Except.ofOption (Base64Url.decode rawSig) .signatureEncoding
  .ok (payload, sig)

/-- The arguments of `Check`: the request is given by its method and its URL. -/
structure Presented where
  pub : Bytes
  header : Bytes
  request : Option (Bytes × Option URL)
  /-- The nil body has the digest of the empty one. -/
  body : Bytes
  token : Bytes
  deriving DecidableEq

/-- `Verifier.Check` up to the reading of the clock: the binding of a proof that is signed and made
for the request. -/
def Verifier.bind (S : SignatureScheme) (sha256 : Bytes → Bytes) (v : Verifier) (p : Presented) :
    Except PopError Binding := do
  Except.require (p.header ≠ []) .missingProof
  let (method, url) ← Except.ofOption p.request .noRequest
  Except.require (p.token ≠ []) .noToken
  let (payload, sig) ← parseProof p.header
  Except.require (Sigctx.verify S v.ctx p.pub payload sig = true) .badSignature
  let b ← Except.ofOption (Binding.decode payload) .badPayload
  Except.require (b.htm = method) (.wrongMethod b.htm method)
  Except.require (b.htu = target url) (.wrongTarget b.htu (target url))
  Except.require (b.ath = hash sha256 p.token) .wrongToken
  Except.require (b.bh = hash sha256 p.body) .wrongBody
  Except.require (b.iat ≠ 0) .noIat
  .ok b

/-- The rest of `Verifier.Check`, up to the use of the cache. -/
def Verifier.fresh (v : Verifier) (b : Binding) (now : ℤ) : Except PopError Unit := do
  let iat := Time.ofUnix b.iat
  Except.require (iat ≤ now + v.skew) (.inFuture (Time.sub iat now) v.skew)
  Except.require (Time.sub now iat ≤ v.maxAge) (.tooOld (Time.sub now iat) v.maxAge)
  Except.require (b.jti.length ≠ 0 ∧ b.jti.length ≤ maxJTI) (.badJTI b.jti.length maxJTI)

/-- `Verifier.Check` up to the use of the cache, with the clock value it reads: the id to use. -/
def Verifier.check (S : SignatureScheme) (sha256 : Bytes → Bytes) (v : Verifier) (p : Presented)
    (now : ℤ) : Except PopError Bytes := do
  let b ← v.bind S sha256 p
  v.fresh b now
  .ok b.jti

end Sanad.Pop
