import Sanad.Common.Json.Fields
import Sanad.Passport

/-! # The codec of passports

`pkg/passport/passport.go`: what comes back from a token. The claims of a token are read as they were
written (`Claims.decode_render`), the signature covers the text of header and claims, and expiry is
rounded down to the second on the way out. So a token that verifies holds the claims of one call of
`SignWith`, and a passport is never accepted for longer than it is valid.
-/

namespace Sanad.Passport

open Json

/-! ## Claims come back -/

/-- The integers of the claims, each of which is an `int64`. -/
structure Claims.InRange (c : Claims) : Prop where
  budget : ∀ b ∈ c.budget, Time.IsInt64 b.limit
  issuedAt : Time.IsInt64 c.issuedAt
  expiresAt : Time.IsInt64 c.expiresAt

/-- Every string of the claims is valid UTF-8. -/
structure Claims.ValidUtf8 (c : Claims) : Prop where
  id : Utf8.valid c.id = true
  issuer : Utf8.valid c.issuer = true
  principal : Utf8.valid c.principal = true
  audience : Utf8.valid c.audience = true
  agent : Utf8.valid c.agent = true
  tools : ∀ t ∈ c.tools, Utf8.valid t = true
  budget : ∀ b ∈ c.budget, Utf8.valid b.unit = true
  path : ∀ r ∈ c.delegation, ∀ t ∈ r.path, Utf8.valid t = true
  digest : ∀ r ∈ c.delegation, Utf8.valid r.digest = true

/-- A budget after it was written and read. -/
def rereadBudget (b : Budget) : Budget := ⟨b.limit, reread b.unit⟩

/-- A summary after it was written and read. -/
def rereadRef (r : DelegationRef) : DelegationRef := ⟨r.path.map reread, reread r.digest⟩

/-- The claims after they were written and read. -/
def Claims.reread (c : Claims) : Claims where
  id := Json.reread c.id
  issuer := Json.reread c.issuer
  principal := Json.reread c.principal
  audience := Json.reread c.audience
  agent := Json.reread c.agent
  tools := c.tools.map Json.reread
  budget := c.budget.map rereadBudget
  delegation := c.delegation.map rereadRef
  issuedAt := c.issuedAt
  expiresAt := c.expiresAt

theorem Claims.reread_of_validUtf8 {c : Claims} (h : c.ValidUtf8) : c.reread = c := by
  have hself : ∀ {s : Bytes}, Utf8.valid s = true → Json.reread s = s := reread_eq_self_iff.mpr
  obtain ⟨id, issuer, principal, audience, agent, tools, budget, delegation, issuedAt, expiresAt⟩ := c
  have hbudget : budget.map rereadBudget = budget := by
    cases budget with
    | none => rfl
    | some b => simp [rereadBudget, hself (h.budget b rfl)]
  have hdelegation : delegation.map rereadRef = delegation := by
    cases delegation with
    | none => rfl
    | some r => simp [rereadRef, map_reread (h.path r rfl), hself (h.digest r rfl)]
  simp only [Claims.reread, hself h.id, hself h.issuer, hself h.principal, hself h.audience,
    hself h.agent, map_reread h.tools, hbudget, hdelegation]

theorem decodeInt64_of_isInt64 {z : ℤ} (h : Time.IsInt64 z) (old : ℤ) :
    decodeInt64 old (.ofInt z) = some z := by
  obtain ⟨hlow, hhigh⟩ := h
  rw [Time.maxDuration] at hlow hhigh
  exact decodeInt64_ofInt (by omega) (by omega) old

theorem decodeBudget_written {b : Budget} (h : Time.IsInt64 b.limit) (zero : Budget) :
    decodeBudget zero (.ofFields [("Limit", .ofInt b.limit), ("Unit", .ofString b.unit)]) =
      some (rereadBudget b) := by
  rw [decodeBudget, decodeRecord_cons (f := BudgetField.limit) rfl]
  simp only [decodeInt64_of_isInt64 h, Option.map_some, Option.bind_some]
  rw [decodeRecord_field (f := BudgetField.unit) rfl, decodeText_ofString]
  rfl

theorem decodeRef_written (r : DelegationRef) :
    decodeRef ⟨[], []⟩ (.ofFields (
      [("path", if r.path.length = 0 then .null else .array (r.path.map .ofString))] ++
      textFields "dgst" r.digest)) = some (rereadRef r) := by
  have hpath : decodeTexts (if r.path.length = 0 then .null else .array (r.path.map .ofString)) =
      some (r.path.map Json.reread) := by
    split
    · next hempty =>
        rw [List.length_eq_zero_iff.mp hempty]
        rfl
    · exact decodeTexts_strings r.path
  rw [decodeRef, List.singleton_append, decodeRecord_cons (f := RefField.path) rfl]
  simp only [hpath, Option.map_some, Option.bind_some]
  rw [textFields]
  split
  · next hempty =>
      rw [decodeRecord_nil, rereadRef, List.length_eq_zero_iff.mp hempty]
      rfl
  · rw [decodeRecord_field (f := RefField.digest) rfl, decodeText_ofString]
    rfl

section

variable {r : Claims}

/-! Each part of the claims, decoded into claims that do not have it yet. -/

theorem decode_names (c : Claims) :
    decodeRecord claimsFields Claims.store r (.ofFields
      [("jti", .ofString c.id), ("iss", .ofString c.issuer), ("sub", .ofString c.principal),
        ("aud", .ofString c.audience)]) =
      some { r with
        id := Json.reread c.id, issuer := Json.reread c.issuer,
        principal := Json.reread c.principal, audience := Json.reread c.audience } := by
  rw [decodeRecord_cons (f := ClaimsField.id) rfl, Claims.store, decodeText_ofString,
    Option.map_some, Option.bind_some, decodeRecord_cons (f := ClaimsField.issuer) rfl, Claims.store,
    decodeText_ofString, Option.map_some, Option.bind_some,
    decodeRecord_cons (f := ClaimsField.principal) rfl, Claims.store, decodeText_ofString,
    Option.map_some, Option.bind_some, decodeRecord_field (f := ClaimsField.audience) rfl,
    Claims.store, decodeText_ofString, Option.map_some]

theorem decode_agent (h : r.agent = []) (s : Bytes) :
    decodeRecord claimsFields Claims.store r (.ofFields (textFields "agent" s)) =
      some { r with agent := Json.reread s } := by
  rw [textFields]
  split
  · next hempty =>
      rw [decodeRecord_nil, List.length_eq_zero_iff.mp hempty]
      obtain ⟨⟩ := r
      obtain rfl := h
      rfl
  · exact decodeRecord_field (f := ClaimsField.agent) rfl r _

theorem decode_scope (h : r.tools = []) (tools : List Bytes) :
    decodeRecord claimsFields Claims.store r (.ofFields (scopeFields tools)) =
      some { r with tools := tools.map Json.reread } := by
  rw [scopeFields]
  split
  · next hempty =>
      rw [decodeRecord_nil, List.length_eq_zero_iff.mp hempty]
      obtain ⟨⟩ := r
      obtain rfl := h
      rfl
  · rw [decodeRecord_field (f := ClaimsField.tools) rfl, Claims.store, decodeTexts_strings]
    rfl

theorem decode_budget (h : r.budget = none) {budget : Option Budget}
    (hrange : ∀ b ∈ budget, Time.IsInt64 b.limit) :
    decodeRecord claimsFields Claims.store r (.ofFields (Delegation.budgetFields budget)) =
      some { r with budget := budget.map rereadBudget } := by
  cases budget with
  | none =>
      obtain ⟨⟩ := r
      obtain rfl := h
      rfl
  | some b =>
      rw [Delegation.budgetFields, decodeRecord_field (f := ClaimsField.budget) rfl, Claims.store, h]
      show ((decodeBudget ⟨0, []⟩ _).map some).map _ = _
      rw [decodeBudget_written (hrange b rfl)]
      rfl

theorem decode_delegation (h : r.delegation = none) (ref : Option DelegationRef) :
    decodeRecord claimsFields Claims.store r (.ofFields (refFields ref)) =
      some { r with delegation := ref.map rereadRef } := by
  cases ref with
  | none =>
      obtain ⟨⟩ := r
      obtain rfl := h
      rfl
  | some ref =>
      rw [refFields, decodeRecord_field (f := ClaimsField.delegation) rfl, Claims.store, h]
      show ((decodeRef ⟨[], []⟩ _).map some).map _ = _
      rw [decodeRef_written]
      rfl

theorem decode_times {iat exp : ℤ} (hiat : Time.IsInt64 iat) (hexp : Time.IsInt64 exp) :
    decodeRecord claimsFields Claims.store r (.ofFields [("iat", .ofInt iat), ("exp", .ofInt exp)]) =
      some { r with issuedAt := iat, expiresAt := exp } := by
  rw [decodeRecord_cons (f := ClaimsField.issuedAt) rfl, Claims.store, decodeInt64_of_isInt64 hiat,
    Option.map_some, Option.bind_some, decodeRecord_field (f := ClaimsField.expiresAt) rfl,
    Claims.store, decodeInt64_of_isInt64 hexp, Option.map_some]

end

/-- The claims that are decoded are those that were written, up to their UTF-8. -/
theorem Claims.decodeRecord_json {c : Claims} (h : c.InRange) :
    decodeRecord claimsFields Claims.store Claims.zero c.json = some c.reread := by
  rw [Claims.json, Claims.fields, decodeRecord_append, decodeRecord_append, decodeRecord_append,
    decodeRecord_append, decodeRecord_append, decode_names, Option.bind_some, decode_agent rfl,
    Option.bind_some, decode_scope rfl, Option.bind_some, decode_budget rfl h.budget,
    Option.bind_some, decode_delegation rfl, Option.bind_some, decode_times h.issuedAt h.expiresAt,
    Claims.reread, Claims.zero]

theorem Claims.depth_json_le (c : Claims) : c.json.depth ≤ 3 := by
  have htext : ∀ name s, ∀ p ∈ textFields name s, p.2.depth ≤ 0 := by
    intro name s
    rw [textFields]
    split <;> simp [Json.ofString, depth]
  have hscope : ∀ p ∈ scopeFields c.tools, p.2.depth ≤ 1 := by
    rw [scopeFields]
    split
    · simp
    · simpa using depth_strings_le c.tools
  have hbudget : ∀ p ∈ Delegation.budgetFields c.budget, p.2.depth ≤ 1 := by
    cases c.budget with
    | none => simp [Delegation.budgetFields]
    | some b =>
        refine List.forall_mem_singleton.mpr (depth_ofFields_le ?_)
        simp [Json.ofString, Json.ofInt, depth]
  have href : ∀ p ∈ refFields c.delegation, p.2.depth ≤ 2 := by
    cases c.delegation with
    | none => simp [refFields]
    | some r =>
        refine List.forall_mem_singleton.mpr (depth_ofFields_le ?_)
        refine List.forall_mem_append.mpr ⟨List.forall_mem_singleton.mpr ?_, ?_⟩
        · split
          · exact Nat.zero_le 1
          · exact depth_strings_le r.path
        · exact fun p hp => (htext _ _ p hp).trans (Nat.zero_le 1)
  refine depth_ofFields_le ?_
  simp only [Claims.fields, List.forall_mem_append]
  refine ⟨⟨⟨⟨⟨?_, ?_⟩, ?_⟩, ?_⟩, href⟩, ?_⟩
  · simp [Json.ofString, depth]
  · exact fun p hp => (htext _ _ p hp).trans (Nat.zero_le 2)
  · exact fun p hp => (hscope p hp).trans (by decide)
  · exact fun p hp => (hbudget p hp).trans (by decide)
  · simp [Json.ofInt, depth]

/-- `json.Unmarshal` of the claims that `json.Marshal` wrote. -/
theorem Claims.decode_render {c : Claims} (h : c.InRange) :
    Claims.decode (render c.json) = some c.reread := by
  have hdepth : c.json.depth ≤ maxNestingDepth := c.depth_json_le.trans (by decide)
  rw [Claims.decode, unmarshal_render hdepth]
  exact Claims.decodeRecord_json h

theorem decode_header (kid : Bytes) :
    Header.decode (render (Header.json ⟨alg, typ, kid⟩)) = some ⟨alg, typ, Json.reread kid⟩ := by
  have hdepth : (Header.json ⟨alg, typ, kid⟩).depth ≤ maxNestingDepth := by
    have htext : ∀ p ∈ [("alg", Json.ofString alg), ("typ", Json.ofString typ)] ++ textFields "kid" kid,
        p.2.depth ≤ 0 := by
      rw [textFields]
      split <;> simp [Json.ofString, depth]
    exact (depth_ofFields_le htext).trans (by decide)
  rw [Header.decode, unmarshal_render hdepth, Option.bind_some, Header.json, decodeRecord_append]
  have hnames : decodeRecord headerFields Header.store ⟨[], [], []⟩
      (.ofFields [("alg", .ofString alg), ("typ", .ofString typ)]) = some ⟨alg, typ, []⟩ := rfl
  rw [hnames, Option.bind_some, textFields]
  split
  · next hempty =>
      obtain rfl : kid = [] := List.length_eq_zero_iff.mp hempty
      rfl
  · rw [decodeRecord_field (f := HeaderField.kid) rfl, Header.store, decodeText_ofString]
    rfl

/-! ## Tokens -/

/-- The signing input of `SignWith`. -/
def signingInput (kid : Bytes) (c : Claims) : Bytes :=
  Base64Url.encode (render (Header.json ⟨alg, typ, kid⟩)) ++ [dot] ++ Base64Url.encode (render c.json)

theorem signWith_eq_ok_iff {σ : Type} {kid token : Bytes} {c : Claims}
    {sign : Bytes → EStateM Bytes σ Bytes} {w w' : σ} :
    signWith kid c sign w = .ok token w' ↔ ∃ sig, sign (signingInput kid c) w = .ok sig w' ∧
      token = signingInput kid c ++ [dot] ++ Base64Url.encode sig := by
  simp only [signWith, EStateM.bind_eq_ok_iff, EStateM.pure_eq_ok_iff]
  constructor
  · rintro ⟨sig, w₁, hsign, htoken, rfl⟩
    exact ⟨sig, hsign, htoken.symm⟩
  · rintro ⟨sig, hsign, htoken⟩
    exact ⟨sig, w', hsign, htoken.symm, rfl⟩

theorem parts_signed (kid sig : Bytes) (c : Claims) :
    parts (signingInput kid c ++ [dot] ++ Base64Url.encode sig) = .ok
      (Base64Url.encode (render (Header.json ⟨alg, typ, kid⟩)), Base64Url.encode (render c.json),
        Base64Url.encode sig) :=
  parts_token _ _ _

theorem decodeHeader_signed (kid : Bytes) :
    decodeHeader (Base64Url.encode (render (Header.json ⟨alg, typ, kid⟩))) =
      .ok ⟨alg, typ, Json.reread kid⟩ := by
  rw [decodeHeader, Except.bind_eq_ok_iff]
  refine ⟨_, Except.ofOption_eq_ok_iff.mpr (Base64Url.decode_encode _), ?_⟩
  exact Except.ofOption_eq_ok_iff.mpr (decode_header kid)

section

variable {S : SignatureScheme} {pub raw audience : Bytes} {now : ℤ} {c : Claims}

/-- What the audience and the expiry have to be for a token to be accepted. -/
def Admits (audience : Bytes) (now : ℤ) (c : Claims) : Prop :=
  (audience = [] ∨ c.audience = audience) ∧ Time.unix now < c.expiresAt

/-- The signature of an accepted token covers the text of its header and claims. -/
theorem of_verify (h : verify S pub raw audience now = .ok c) :
    ∃ header payload signature sig pb, raw.splitOn dot = [header, payload, signature] ∧
      S.verify pub (header ++ [dot] ++ payload) sig = true ∧
      Base64Url.decode payload = some pb ∧ Claims.decode pb = some c ∧ Admits audience now c := by
  simp only [verify, Except.bind_eq_ok_iff, Except.require_eq_ok_iff, Except.ofOption_eq_ok_iff] at h
  obtain ⟨-, -, ⟨header, payload, signature⟩, hparts, -, -, -, -, -, -, sig, -, -, hverify, pb, hpb,
    c', hc', -, haudience, -, hexpiry, hc⟩ := h
  obtain rfl := Except.ok.inj hc
  refine ⟨header, payload, signature, sig, pb, ?_, hverify, hpb, hc', haudience, hexpiry⟩
  rw [parts] at hparts
  split at hparts
  · next hsplit =>
      obtain ⟨rfl, rfl, rfl⟩ := hparts
      exact hsplit
  · cases hparts

/-- `Verify` on the three parts of a token. -/
theorem verify_parts {hb pb sig : Bytes} {hdr : Header} (hdecode : Header.decode hb = some hdr)
    (halg : hdr.alg = alg) (htyp : hdr.typ = typ) :
    verify S pub (Base64Url.encode hb ++ [dot] ++ Base64Url.encode pb ++ [dot] ++ Base64Url.encode sig)
        audience now = .ok c ↔
      pub.length = 32 ∧
        S.verify pub (Base64Url.encode hb ++ [dot] ++ Base64Url.encode pb) sig = true ∧
        Claims.decode pb = some c ∧ Admits audience now c := by
  have hheader : decodeHeader (Base64Url.encode hb) = .ok hdr := by
    rw [decodeHeader, Except.bind_eq_ok_iff]
    exact ⟨hb, Except.ofOption_eq_ok_iff.mpr (Base64Url.decode_encode hb),
      Except.ofOption_eq_ok_iff.mpr hdecode⟩
  simp only [verify, parts_token, Except.bind_eq_ok_iff, Except.require_eq_ok_iff,
    Except.ofOption_eq_ok_iff]
  constructor
  · rintro ⟨-, hpub, ps, hps, -, -, -, -, -, -, sig', hsig, -, hverify, pb', hpb, c₁, hc₁, -, haudience,
      -, hexpiry, hc⟩
    rw [← Except.ok.inj hps] at hsig hverify hpb
    rw [Base64Url.decode_encode] at hsig hpb
    obtain rfl := Option.some.inj hsig
    obtain rfl := Option.some.inj hpb
    obtain rfl := Except.ok.inj hc
    exact ⟨hpub, hverify, hc₁, haudience, hexpiry⟩
  · rintro ⟨hpub, hverify, hc, haudience, hexpiry⟩
    exact ⟨(), hpub, _, rfl, hdr, hheader, (), halg, (), htyp, sig, Base64Url.decode_encode sig, (),
      hverify, pb, Base64Url.decode_encode pb, c, hc, (), haudience, (), hexpiry, rfl⟩

/-- A token with the claims of `c` and a signature is accepted exactly if the signature is valid and
the audience and the expiry are right. -/
theorem verify_token {kid sig : Bytes} {c' : Claims} (hrange : c.InRange) :
    verify S pub (signingInput kid c ++ [dot] ++ Base64Url.encode sig) audience now = .ok c' ↔
      pub.length = 32 ∧ S.verify pub (signingInput kid c) sig = true ∧ Admits audience now c.reread ∧
        c' = c.reread := by
  rw [signingInput, verify_parts (decode_header kid) rfl rfl, Claims.decode_render hrange,
    Option.some.injEq]
  constructor
  · rintro ⟨hpub, hverify, hc, hadmits⟩
    exact ⟨hpub, hverify, hc ▸ hadmits, hc.symm⟩
  · rintro ⟨hpub, hverify, hadmits, hc⟩
    exact ⟨hpub, hverify, hc.symm, hc ▸ hadmits⟩

/-- The key id of a token is the one it was made with, up to its UTF-8. -/
theorem keyID_token (kid sig : Bytes) (c : Claims) :
    keyID (signingInput kid c ++ [dot] ++ Base64Url.encode sig) = .ok (Json.reread kid) := by
  simp only [keyID, parts_signed, Except.bind_eq_ok_iff]
  exact ⟨_, rfl, _, decodeHeader_signed kid, rfl⟩

/-- The owner of the key signs only what `SignWith` gives it, for the given key ids and claims. -/
def SignsOnly (S : SignatureScheme) (pub : Bytes) (calls : List (Bytes × Claims)) : Prop :=
  ∀ msg sig, S.verify pub msg sig = true → ∃ call ∈ calls, msg = signingInput call.1 call.2

/-- The claims of an accepted token were given to `SignWith`. -/
theorem call_of_verify {calls : List (Bytes × Claims)} (hkey : SignsOnly S pub calls)
    (hcalls : ∀ call ∈ calls, call.2.InRange) (h : verify S pub raw audience now = .ok c) :
    (∃ call ∈ calls, call.2.reread = c) ∧ Admits audience now c := by
  obtain ⟨header, payload, signature, sig, pb, hsplit, hverify, hpb, hc, hadmits⟩ := of_verify h
  refine ⟨?_, hadmits⟩
  obtain ⟨call, hcall, hmsg⟩ := hkey _ _ hverify
  -- neither header has a full stop in it, so the two texts have the same parts
  have hheader : dot ∉ header := Bytes.not_mem_of_mem_splitOn (by rw [hsplit]; exact List.mem_cons_self)
  rw [signingInput, List.append_assoc, List.append_assoc, List.singleton_append,
    List.singleton_append] at hmsg
  obtain ⟨-, rfl⟩ := Bytes.append_sep_inj hheader (dot_not_mem_encode _) hmsg
  rw [Base64Url.decode_encode] at hpb
  obtain rfl := Option.some.inj hpb
  rw [Claims.decode_render (hcalls call hcall)] at hc
  exact ⟨call, hcall, Option.some.inj hc⟩

end

/-! ## Passports -/

theorem inRange_toClaims (sha256 : Bytes → Bytes) {p : Passport} (issuer : Bytes)
    (h : ∀ b ∈ p.scope.budget, Time.IsInt64 b.limit) : (toClaims sha256 p issuer).InRange where
  budget := h
  issuedAt := Time.isInt64_wrap _
  expiresAt := Time.isInt64_wrap _

/-- Claims that were read come back from the passport they are read into. -/
theorem toClaims_toPassport (sha256 : Bytes → Bytes) {c : Claims} (h : c.InRange) :
    toClaims sha256 c.toPassport c.issuer = c := by
  obtain ⟨id, issuer, principal, audience, agent, tools, budget, delegation, issuedAt, expiresAt⟩ := c
  simp only [toClaims, Claims.toPassport, Time.unix_ofUnix h.issuedAt, Time.unix_ofUnix h.expiresAt]
  rfl

/-- What the token of a passport is accepted for ends no later than the passport. -/
theorem not_expired_of_verify {σ : Type} {S : SignatureScheme} {sha256 : Bytes → Bytes} {p : Passport}
    {issuer kid pub token audience : Bytes} {sign : Bytes → EStateM Bytes σ Bytes} {w w' : σ} {now : ℤ}
    {c : Claims} (hlimit : ∀ b ∈ p.scope.budget, Time.IsInt64 b.limit) (hnow : Time.Representable now)
    (hexpires : Time.IsInt64 (p.expiresAt / Time.second - 62135596800))
    (hsign : signWith kid (toClaims sha256 p issuer) sign w = .ok token w')
    (h : verify S pub token audience now = .ok c) : p.expired now = false := by
  obtain ⟨sig, -, htoken⟩ := signWith_eq_ok_iff.mp hsign
  rw [htoken, verify_token (inRange_toClaims sha256 issuer hlimit)] at h
  obtain ⟨-, -, ⟨-, hunix⟩, -⟩ := h
  have hlt : now < p.expiresAt := Time.lt_of_unix_lt hnow hexpires hunix
  simp [Passport.expired, hlt]

/-- The codec of passports.
* If the key signs only what `SignWith` gives it, an accepted token holds the claims of one call, for
  the expected audience and before they expire.
* Conversely, a token that `SignWith` makes with that key is accepted under those two conditions only,
  and its key id is the given one if that is valid UTF-8.
* The token of an expired passport is not accepted, unless the passport expires so far in the past that
  its Unix time wraps around.
* Claims come back from the passport they are read into. -/
theorem codec_faithful (S : SignatureScheme) (pub : Bytes) :
    (∀ calls, SignsOnly S pub calls → (∀ call ∈ calls, call.2.InRange ∧ call.2.ValidUtf8) →
      ∀ raw audience now c, verify S pub raw audience now = .ok c →
        (∃ call ∈ calls, call.2 = c) ∧ Admits audience now c) ∧
    (∀ (σ : Type) (sign : Bytes → EStateM Bytes σ Bytes) (w w' : σ) kid c token, pub.length = 32 →
      (∀ msg w sig w', sign msg w = .ok sig w' → S.verify pub msg sig = true) →
      c.InRange → c.ValidUtf8 → signWith kid c sign w = .ok token w' →
        (∀ audience now, (Admits audience now c → verify S pub token audience now = .ok c) ∧
          ((∃ c', verify S pub token audience now = .ok c') → Admits audience now c)) ∧
        (keyID token = .ok kid ↔ Utf8.valid kid = true)) ∧
    (∀ (σ : Type) (sign : Bytes → EStateM Bytes σ Bytes) (w w' : σ) sha256 (p : Passport) issuer kid
      token audience now c, (∀ b ∈ p.scope.budget, Time.IsInt64 b.limit) → Time.Representable now →
      Time.IsInt64 (p.expiresAt / Time.second - 62135596800) →
      signWith kid (toClaims sha256 p issuer) sign w = .ok token w' →
      verify S pub token audience now = .ok c → p.expired now = false) ∧
    (∀ sha256 c, Claims.InRange c → toClaims sha256 c.toPassport c.issuer = c) := by
  refine ⟨?_, ?_, ?_, ?_⟩
  · intro calls hkey hcalls raw audience now c h
    obtain ⟨⟨call, hcall, hreread⟩, hadmits⟩ := call_of_verify hkey (fun call hc => (hcalls call hc).1) h
    rw [Claims.reread_of_validUtf8 (hcalls call hcall).2] at hreread
    exact ⟨⟨call, hcall, hreread⟩, hadmits⟩
  · intro σ sign w w' kid c token hpub hsigner hrange hvalid hsign
    obtain ⟨sig, hsig, htoken⟩ := signWith_eq_ok_iff.mp hsign
    have hiff : ∀ audience now c',
        verify S pub token audience now = .ok c' ↔ Admits audience now c ∧ c' = c := by
      intro audience now c'
      rw [htoken, verify_token hrange, Claims.reread_of_validUtf8 hvalid]
      simp [hpub, hsigner _ _ _ _ hsig]
    refine ⟨fun audience now => ⟨?_, ?_⟩, ?_⟩
    · exact fun hadmits => (hiff audience now c).mpr ⟨hadmits, rfl⟩
    · rintro ⟨c', hc'⟩
      exact ((hiff audience now c').mp hc').1
    · rw [htoken, keyID_token, Except.ok.injEq]
      exact reread_eq_self_iff
  · intro σ sign w w' sha256 p issuer kid token audience now c
    exact not_expired_of_verify
  · exact fun sha256 c => toClaims_toPassport sha256

namespace Sample

def priv : Bytes := List.replicate 64 7

def claims : Claims :=
  ⟨Bytes.ascii "j", Bytes.ascii "g", Bytes.ascii "p", Bytes.ascii "s", Bytes.ascii "a",
    [Bytes.ascii "read"], none, none, 1000, 1120⟩

/-- The token that the gateway's key signs for the claims. -/
def token (kid : Bytes) (c : Claims) : Bytes :=
  signingInput kid c ++ [dot] ++ Base64Url.encode (SignatureScheme.free.sign priv (signingInput kid c))

end Sample

/-- A token is accepted for its server while its claims have not expired. -/
theorem codec_faithful_read :
    verify .free (Sample.priv.drop 32) (Sample.token (Bytes.ascii "k") Sample.claims)
        (Bytes.ascii "s") (Time.ofUnix 1060) = .ok Sample.claims ∧
      keyID (Sample.token (Bytes.ascii "k") Sample.claims) = .ok (Bytes.ascii "k") := by
  have hvalid : Sample.claims.ValidUtf8 := by
    constructor <;> decide
  have hrange : Sample.claims.InRange := by
    constructor <;> decide
  have hsigner : ∀ msg (w : Unit) sig w',
      (pure (SignatureScheme.free.sign Sample.priv msg) : EStateM Bytes Unit Bytes) w = .ok sig w' →
        SignatureScheme.free.verify (Sample.priv.drop 32) msg sig = true := by
    intro msg w sig w' hsig
    obtain ⟨rfl, -⟩ := EStateM.pure_eq_ok_iff.mp hsig
    exact (SignatureScheme.ideal_free.verify_iff _ _ _).mpr ⟨Sample.priv, rfl, rfl⟩
  obtain ⟨haccepted, hkeyID⟩ := (codec_faithful .free (Sample.priv.drop 32)).2.1 Unit _ () ()
    (Bytes.ascii "k") Sample.claims (Sample.token (Bytes.ascii "k") Sample.claims) (by decide) hsigner
    hrange hvalid (signWith_eq_ok_iff.mpr ⟨_, rfl, rfl⟩)
  exact ⟨(haccepted (Bytes.ascii "s") (Time.ofUnix 1060)).1 ⟨.inr rfl, by decide⟩,
    hkeyID.mpr (by decide)⟩

/-- A key id that is no UTF-8 does not come back, and the token of a passport that expires at the
largest Unix time is accepted although the passport is expired. -/
theorem codec_loses_bytes :
    let kid : Bytes := [0xff]
    let p : Passport := { Sample.claims.toPassport with expiresAt := Time.ofUnix Time.maxDuration }
    let c := toClaims (fun b => b) p (Bytes.ascii "g")
    let now := Time.ofUnix 1060
    keyID (Sample.token kid Sample.claims) = .ok [0xef, 0xbf, 0xbd] ∧
      verify .free (Sample.priv.drop 32) (Sample.token (Bytes.ascii "k") c) (Bytes.ascii "s") now
        = .ok c ∧
      Time.Representable p.expiresAt ∧ p.expired now = true := by
  intro kid p c now
  have hrange : c.InRange := inRange_toClaims _ _ (by simp [p, Sample.claims, Claims.toPassport])
  have hreread : c.reread = c := Claims.reread_of_validUtf8 (by constructor <;> decide)
  refine ⟨?_, ?_, by decide, by decide⟩
  · exact (keyID_token kid _ Sample.claims).trans (congrArg Except.ok (by decide))
  · have hsig := (SignatureScheme.ideal_free.verify_iff (Sample.priv.drop 32)
      (signingInput (Bytes.ascii "k") c) _).mpr ⟨Sample.priv, rfl, rfl⟩
    exact (verify_token hrange).mpr ⟨by decide, hsig, hreread.symm ▸ ⟨.inr rfl, by decide⟩, hreread.symm⟩

end Sanad.Passport
