import Sanad.Sts

/-! # The reverse proxy

`gateway/registry.go` builds a `httputil.ReverseProxy` for each server. This is what it makes of a
request on the way out: the URL is the server's with the path of the request behind it, the headers that
belong to one connection are dropped, and the address of the client is added.

The headers of a connection are those on a fixed list and those that the request itself names in its
`Connection` header. A request that names `Authorization` there arrives without its passport
(`values_authorization_outbound`); no other credential takes its place.
-/

namespace Sanad.Gateway

/-! ## Header values -/

/-- Drop the leading and trailing bytes that satisfy `p`. -/
def trim (p : UInt8 → Bool) (b : Bytes) : Bytes := ((b.dropWhile p).reverse.dropWhile p).reverse

/-- The spaces of `textproto.TrimString`. -/
def isASCIISpace (c : UInt8) : Bool := c ∈ ([0x20, 0x09, 0x0a, 0x0d] : Bytes)

/-- Optional white space, as `httpguts` trims it. -/
def isOWS (c : UInt8) : Bool := c ∈ ([0x20, 0x09] : Bytes)

/-- The names on a comma-separated list, for `removeHopByHopHeaders`. -/
def listed (v : Bytes) : List Bytes := ((v.splitOn 0x2c).map (trim isASCIISpace)).filter (· ≠ [])

/-- `httpguts.HeaderValuesContainsToken`, of a token in lower case. -/
def containsToken (values : List Bytes) (token : Bytes) : Bool :=
  values.any fun v => (v.splitOn 0x2c).any fun part =>
    (trim isOWS part).map lower = token && (trim isOWS part).all (· < 0x80)

/-- A header map. -/
abbrev Header := List (Bytes × List Bytes)

namespace Header

/-- The values under a canonical name. -/
def valuesOf (h : Header) (name : Bytes) : List Bytes := (h.lookup name).getD []

/-- `Header.Del` -/
def del (name : Bytes) (h : Header) : Header := h.filter fun kv => kv.1 ≠ Sts.canonicalHeaderKey name

/-- `Header.Set`, of a canonical name. -/
def set (name value : Bytes) (h : Header) : Header := h.filter (fun kv => kv.1 ≠ name) ++ [(name, [value])]

end Header

/-! ## The request on its way out -/

/-- The fields of a `url.URL` that a proxied request has: its `RawPath` is cleared. -/
structure RequestURL where
  path : Bytes
  rawQuery : Bytes
  deriving DecidableEq, Repr

/-- `Server.Upstream`, a URL without an encoded path of its own. -/
structure Upstream where
  scheme : Bytes
  host : Bytes
  path : Bytes
  rawQuery : Bytes
  deriving DecidableEq, Repr

/-- A request as it is sent to an upstream. Without a body there is none. -/
structure Outbound where
  method : Bytes
  scheme : Bytes
  host : Bytes
  path : Bytes
  rawQuery : Bytes
  header : Header
  body : Option Body
  deriving DecidableEq, Repr

/-- `singleJoiningSlash` -/
def singleJoiningSlash (a b : Bytes) : Bytes :=
  if a.getLast? = some 0x2f ∧ b.head? = some 0x2f then a ++ b.tail
  else if a.getLast? ≠ some 0x2f ∧ b.head? ≠ some 0x2f then a ++ [0x2f] ++ b
  else a ++ b

/-- The query of `rewriteRequestURL`. -/
def joinQuery (target query : Bytes) : Bytes :=
  if target = [] ∨ query = [] then target ++ query else target ++ [0x26] ++ query

def connection : Bytes := Bytes.ascii "Connection"

def authorization : Bytes := Bytes.ascii "Authorization"

def xForwardedFor : Bytes := Bytes.ascii "X-Forwarded-For"

/-- `hopHeaders` -/
def hopHeaders : List Bytes :=
  [connection, Bytes.ascii "Proxy-Connection", Bytes.ascii "Keep-Alive",
    Bytes.ascii "Proxy-Authenticate", Bytes.ascii "Proxy-Authorization", Bytes.ascii "Te",
    Bytes.ascii "Trailer", Bytes.ascii "Transfer-Encoding", Bytes.ascii "Upgrade"]

/-- The headers that a request names in its `Connection` header. -/
def connectionNames (h : Header) : List Bytes := (h.valuesOf connection).flatMap listed

/-- `removeHopByHopHeaders` -/
def removeHopByHopHeaders (h : Header) : Header :=
  hopHeaders.foldl (fun h name => h.del name) ((connectionNames h).foldl (fun h name => h.del name) h)

/-- `upgradeType` -/
def upgradeType (h : Header) : Bytes :=
  if containsToken (h.valuesOf connection) (Bytes.ascii "upgrade") then
    (h.valuesOf (Bytes.ascii "Upgrade")).headD []
  else []

/-- The headers that are put back after those of the connection are gone. -/
def restoreHeaders (inbound : Header) (h : Header) : Header :=
  let h := if containsToken (inbound.valuesOf (Bytes.ascii "Te")) (Bytes.ascii "trailers") then
    h.set (Bytes.ascii "Te") (Bytes.ascii "trailers") else h
  if upgradeType inbound = [] then h
  else (h.set connection (Bytes.ascii "Upgrade")).set (Bytes.ascii "Upgrade") (upgradeType inbound)

/-- The address of the client behind those that are there. -/
def addForwardedFor (clientIP : Option Bytes) (h : Header) : Header :=
  match clientIP with
  | none => h
  | some ip =>
    let prior := h.valuesOf xForwardedFor
    h.set xForwardedFor (if prior = [] then ip else
      (Bytes.ascii ", ").intercalate prior ++ Bytes.ascii ", " ++ ip)

/-- A request without a user agent gets an empty one. -/
def addUserAgent (h : Header) : Header :=
  if (h.lookup (Bytes.ascii "User-Agent")).isSome then h else h.set (Bytes.ascii "User-Agent") []

/-- The headers on their way out. -/
def outboundHeader (clientIP : Option Bytes) (h : Header) : Header :=
  addUserAgent (addForwardedFor clientIP (restoreHeaders h (removeHopByHopHeaders h)))

/-- `ReverseProxy.ServeHTTP` up to the round trip: what is sent, none if the request asks for a protocol
whose name is not printable, which is answered with an error. -/
def outbound (upstream : Upstream) (url : RequestURL) (clientIP : Option Bytes) (http : HttpRequest)
    (body : Body) : Option Outbound :=
  if (upgradeType http.header).all fun c => 0x20 ≤ c && c ≤ 0x7e then
    some
      { method := http.method
        scheme := upstream.scheme
        host := upstream.host
        path := singleJoiningSlash upstream.path url.path
        rawQuery := joinQuery upstream.rawQuery url.rawQuery
        header := outboundHeader clientIP http.header
        body := if http.contentLength = 0 ∨ http.hasBody = false then none else some body }
  else none

/-! ## What the upstream sees -/

theorem lookup_filter (p : Bytes → Bool) (h : Header) (name : Bytes) :
    (h.filter fun kv => p kv.1).lookup name = if p name then h.lookup name else none := by
  induction h with
  | nil => simp
  | cons kv h ih =>
      obtain ⟨k, vs⟩ := kv
      rw [List.filter_cons]
      by_cases hname : name = k
      · subst hname
        cases hp : p name with
        | true => simp
        | false => simpa [hp] using ih
      · have hbeq : (name == k) = false := beq_false_of_ne hname
        cases p k <;> simp [List.lookup_cons, hbeq, ih]

namespace Header

theorem lookup_del (name name' : Bytes) (h : Header) :
    (h.del name).lookup name' =
      if name' = Sts.canonicalHeaderKey name then none else h.lookup name' := by
  have hfilter := lookup_filter (fun k => k ≠ Sts.canonicalHeaderKey name) h name'
  rw [del, hfilter]
  simp

theorem lookup_set (name value name' : Bytes) (h : Header) :
    (h.set name value).lookup name' = if name' = name then some [value] else h.lookup name' := by
  have hfilter := lookup_filter (fun k => k ≠ name) h name'
  rw [set, List.lookup_append, hfilter]
  by_cases hname : name' = name
  · simp [hname]
  · have hbeq : (name' == name) = false := beq_false_of_ne hname
    simp [hname, List.lookup_cons, hbeq]

/-- The names that are deleted one after the other. -/
theorem lookup_foldl_del (names : List Bytes) (name : Bytes) (h : Header) :
    (names.foldl (fun h n => h.del n) h).lookup name =
      if name ∈ names.map Sts.canonicalHeaderKey then none else h.lookup name := by
  induction names generalizing h with
  | nil => simp
  | cons n names ih =>
      rw [List.foldl_cons, ih, lookup_del, List.map_cons]
      by_cases hn : name = Sts.canonicalHeaderKey n <;>
        by_cases hrest : name ∈ names.map Sts.canonicalHeaderKey <;> simp [hn, hrest]

end Header

theorem lookup_removeHopByHopHeaders (h : Header) (name : Bytes) :
    (removeHopByHopHeaders h).lookup name =
      if name ∈ hopHeaders.map Sts.canonicalHeaderKey ∨
        name ∈ (connectionNames h).map Sts.canonicalHeaderKey then none else h.lookup name := by
  rw [removeHopByHopHeaders, Header.lookup_foldl_del, Header.lookup_foldl_del]
  by_cases hhop : name ∈ hopHeaders.map Sts.canonicalHeaderKey <;> simp [hhop]

/-- The headers that the proxy itself sets. -/
def proxyHeaders : List Bytes :=
  [Bytes.ascii "Te", connection, Bytes.ascii "Upgrade", xForwardedFor, Bytes.ascii "User-Agent"]

/-- A header that the proxy does not set is passed on, unless it belongs to the connection. -/
theorem lookup_outboundHeader {clientIP : Option Bytes} {h : Header} {name : Bytes}
    (hname : name ∉ proxyHeaders) :
    (outboundHeader clientIP h).lookup name = (removeHopByHopHeaders h).lookup name := by
  simp only [proxyHeaders, List.mem_cons, List.not_mem_nil, or_false, not_or] at hname
  obtain ⟨hte, hconnection, hupgrade, hforwarded, hagent⟩ := hname
  have hrestore : ∀ h', (restoreHeaders h h').lookup name = h'.lookup name := by
    intro h'
    simp only [restoreHeaders]
    split_ifs <;> simp [Header.lookup_set, hte, hconnection, hupgrade]
  have hadd : ∀ h', (addForwardedFor clientIP h').lookup name = h'.lookup name := by
    intro h'
    cases clientIP with
    | none => rfl
    | some ip => rw [addForwardedFor, Header.lookup_set, if_neg hforwarded]
  rw [outboundHeader, addUserAgent]
  split
  · rw [hadd, hrestore]
  · rw [Header.lookup_set, if_neg hagent, hadd, hrestore]

theorem isSome_of_valuesOf_ne_nil {h : Header} {name : Bytes} (hne : h.valuesOf name ≠ []) :
    (h.lookup name).isSome = true := by
  rw [Header.valuesOf] at hne
  cases hvalues : h.lookup name with
  | none => simp [hvalues] at hne
  | some vs => rfl

theorem ne_nil_of_containsToken {values : List Bytes} {token : Bytes}
    (h : containsToken values token = true) : values ≠ [] := by
  rintro rfl
  cases h

theorem eq_or_isSome_of_set {name name' value : Bytes} {h : Header}
    (hsome : ((h.set name value).lookup name').isSome = true) :
    name' = name ∨ (h.lookup name').isSome = true := by
  rw [Header.lookup_set] at hsome
  split at hsome
  · next hname => exact .inl hname
  · exact .inr hsome

/-- What is put back was there before. -/
theorem isSome_of_restoreHeaders {h h' : Header} {name : Bytes}
    (hsome : ((restoreHeaders h h').lookup name).isSome = true) :
    (h.lookup name).isSome = true ∨ (h'.lookup name).isSome = true := by
  have hupgrade : upgradeType h ≠ [] → (h.lookup connection).isSome = true ∧
      (h.lookup (Bytes.ascii "Upgrade")).isSome = true := by
    intro hne
    rw [upgradeType] at hne
    split at hne
    · next htoken =>
        refine ⟨isSome_of_valuesOf_ne_nil (ne_nil_of_containsToken htoken),
          isSome_of_valuesOf_ne_nil fun hnil => hne ?_⟩
        rw [hnil]
        rfl
    · exact absurd rfl hne
  have hte : ((if containsToken (h.valuesOf (Bytes.ascii "Te")) (Bytes.ascii "trailers") then
      h'.set (Bytes.ascii "Te") (Bytes.ascii "trailers") else h').lookup name).isSome = true →
      (h.lookup name).isSome = true ∨ (h'.lookup name).isSome = true := by
    intro hsome
    split at hsome
    · next htoken =>
        rcases eq_or_isSome_of_set hsome with hname | hsome
        · rw [hname]
          exact .inl (isSome_of_valuesOf_ne_nil (ne_nil_of_containsToken htoken))
        · exact .inr hsome
    · exact .inr hsome
  simp only [restoreHeaders] at hsome
  split at hsome
  · exact hte hsome
  · next hne =>
      rcases eq_or_isSome_of_set hsome with rfl | hsome
      · exact .inl (hupgrade hne).2
      · rcases eq_or_isSome_of_set hsome with rfl | hsome
        · exact .inl (hupgrade hne).1
        · exact hte hsome

/-- A header that is sent was there before, or is one of the two that the proxy adds. -/
theorem isSome_of_outboundHeader {clientIP : Option Bytes} {h : Header} {name : Bytes}
    (hsent : ((outboundHeader clientIP h).lookup name).isSome = true) :
    (h.lookup name).isSome = true ∨ name = xForwardedFor ∨ name = Bytes.ascii "User-Agent" := by
  have hremove : ((removeHopByHopHeaders h).lookup name).isSome = true →
      (h.lookup name).isSome = true := by
    rw [lookup_removeHopByHopHeaders]
    split
    · simp
    · exact id
  have hforwarded : ((addForwardedFor clientIP (restoreHeaders h (removeHopByHopHeaders h))).lookup
      name).isSome = true → (h.lookup name).isSome = true ∨ name = xForwardedFor := by
    intro hsome
    have hrestored : ((restoreHeaders h (removeHopByHopHeaders h)).lookup name).isSome = true →
        (h.lookup name).isSome = true := fun hsome => (isSome_of_restoreHeaders hsome).elim id hremove
    cases clientIP with
    | none => exact .inl (hrestored hsome)
    | some ip =>
        rcases eq_or_isSome_of_set hsome with hname | hsome
        · exact .inr hname
        · exact .inl (hrestored hsome)
  rw [outboundHeader, addUserAgent] at hsent
  split at hsent
  · exact (hforwarded hsent).imp_right .inl
  · rcases eq_or_isSome_of_set hsent with hname | hsome
    · exact .inr (.inr hname)
    · exact (hforwarded hsome).imp_right .inl

/-! ## After the mint stage -/

theorem mem_allow {forward : List Bytes} {name : Bytes} (h : name ∈ Sts.forwardedHeaders)
    (hne : name ≠ []) (htrim : Utf8.trimSpace name = name) :
    Sts.canonicalHeaderKey name ∈ Sts.allow forward := by
  refine List.mem_map_of_mem (List.mem_filter.mpr ⟨?_, by simpa using hne⟩)
  exact List.mem_map.mpr ⟨name, List.mem_append_left _ h, htrim⟩

/-- The headers that the mint stage leaves: the passport, and those that are forwarded. -/
theorem lookup_isolate (forward : List Bytes) (token : Bytes) (http : HttpRequest) (name : Bytes) :
    (Sts.isolate forward token http).header.lookup name =
      if name = authorization then some [Bytes.ascii "Bearer " ++ token]
      else if name ∈ Sts.allow forward then http.header.lookup name else none := by
  have hfilter := lookup_filter (fun k => k ∈ Sts.allow forward ∧ k ≠ authorization) http.header name
  show (List.filter (fun kv => kv.1 ∈ Sts.allow forward ∧ kv.1 ≠ authorization) http.header ++
    [(authorization, [Bytes.ascii "Bearer " ++ token])]).lookup name = _
  rw [List.lookup_append, hfilter]
  by_cases hname : name = authorization
  · simp [hname]
  · have hbeq : (name == authorization) = false := beq_false_of_ne hname
    by_cases hallow : name ∈ Sts.allow forward <;> simp [hname, hallow, List.lookup_cons, hbeq]

theorem connectionNames_isolate (forward : List Bytes) (token : Bytes) (http : HttpRequest) :
    connectionNames (Sts.isolate forward token http).header = connectionNames http.header := by
  have hallow : connection ∈ Sts.allow forward :=
    mem_allow (show Bytes.ascii "Connection" ∈ Sts.forwardedHeaders by decide) (by decide) (by decide)
  rw [connectionNames, connectionNames, Header.valuesOf, Header.valuesOf, lookup_isolate,
    if_neg (by decide), if_pos hallow]

/-- The credential that is sent after the mint stage. -/
theorem valuesOf_authorization (clientIP : Option Bytes) (forward : List Bytes) (token : Bytes)
    (http : HttpRequest) :
    (outboundHeader clientIP (Sts.isolate forward token http).header).valuesOf authorization =
      if authorization ∈ (connectionNames http.header).map Sts.canonicalHeaderKey then []
      else [Bytes.ascii "Bearer " ++ token] := by
  have hhop : authorization ∉ hopHeaders.map Sts.canonicalHeaderKey := by decide
  rw [Header.valuesOf, lookup_outboundHeader (by decide), lookup_removeHopByHopHeaders,
    connectionNames_isolate, lookup_isolate, if_pos rfl]
  simp only [hhop, false_or]
  split <;> rfl

/-- What is sent, part by part. -/
theorem of_outbound {upstream : Upstream} {url : RequestURL} {clientIP : Option Bytes}
    {http : HttpRequest} {body : Body} {out : Outbound}
    (h : outbound upstream url clientIP http body = some out) :
    out.scheme = upstream.scheme ∧ out.host = upstream.host ∧
      out.path = singleJoiningSlash upstream.path url.path ∧
      out.header = outboundHeader clientIP http.header ∧
      out.body = if http.contentLength = 0 ∨ http.hasBody = false then none else some body := by
  rw [outbound] at h
  split at h
  · rw [← Option.some.inj h]
    exact ⟨rfl, rfl, rfl, rfl, rfl⟩
  · cases h

/-- Whatever the caller sends, the upstream sees no header but the passport, the forwarded ones and the
address of the client. The credential it sees is the passport, which is missing exactly if the caller
names it among the headers of its connection. -/
theorem upstream_credential (upstream : Upstream) (url : RequestURL) (clientIP : Option Bytes)
    (forward : List Bytes) (token : Bytes) (http : HttpRequest) (body : Body) (out : Outbound)
    (h : outbound upstream url clientIP (Sts.isolate forward token http) body = some out) :
    (out.header.valuesOf authorization =
      if authorization ∈ (connectionNames http.header).map Sts.canonicalHeaderKey then []
      else [Bytes.ascii "Bearer " ++ token]) ∧
    ∀ name, (out.header.lookup name).isSome = true →
      name ∈ Sts.allow forward ∨ name = authorization ∨ name = xForwardedFor := by
  obtain ⟨-, -, -, hheader, -⟩ := of_outbound h
  rw [hheader]
  refine ⟨valuesOf_authorization clientIP forward token http, fun name hsome => ?_⟩
  have hagent : Bytes.ascii "User-Agent" ∈ Sts.allow forward :=
    mem_allow (show Bytes.ascii "User-Agent" ∈ Sts.forwardedHeaders by decide) (by decide) (by decide)
  rcases isSome_of_outboundHeader hsome with hsome | hname | hname
  · rw [lookup_isolate] at hsome
    split_ifs at hsome with hname hallow
    · exact .inr (.inl hname)
    · exact .inl hallow
    · cases hsome
  · exact .inr (.inr hname)
  · exact .inl (hname ▸ hagent)

namespace Sample

/-- A caller that names its credential in `Connection`. -/
def stripping : HttpRequest where
  method := Bytes.ascii "GET"
  target := []
  contentLength := 0
  hasBody := false
  header := [(authorization, [Bytes.ascii "Bearer caller"]),
    (connection, [Bytes.ascii "close, authorization"])]

def upstream : Upstream := ⟨Bytes.ascii "http", Bytes.ascii "files", [], []⟩

end Sample

open Sample in
theorem upstream_credential_stripped :
    ∃ out, outbound upstream ⟨Bytes.ascii "/mcp", []⟩ none
        (Sts.isolate [] (Bytes.ascii "passport") stripping) ⟨[], none⟩ = some out ∧
      out.header.valuesOf authorization = [] := by
  obtain ⟨out, hout⟩ : ∃ out, outbound upstream ⟨Bytes.ascii "/mcp", []⟩ none
      (Sts.isolate [] (Bytes.ascii "passport") stripping) ⟨[], none⟩ = some out := ⟨_, rfl⟩
  refine ⟨out, hout, ?_⟩
  rw [(upstream_credential _ _ _ _ _ _ _ _ hout).1]
  exact if_pos (by decide +kernel)

end Sanad.Gateway
