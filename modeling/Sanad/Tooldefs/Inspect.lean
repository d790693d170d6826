import Mathlib.Logic.Function.Basic
import Sanad.Tooldefs
import Sanad.Tooldefs.Canonical

/-! # Inspecting responses

`tooldefs/guard.go`: the response path of the guard. A `tools/list` response of a watched server is
held, reduced to its definitions and compared with the approved fingerprint; what cannot be checked
is treated as drift is. SHA-256, `mime.ParseMediaType` and `gzip` are parameters.
-/

namespace Sanad.Tooldefs

open Gateway

/-! ## The guard -/

/-- `Status` -/
inductive Status where
  | ok
  | drifted
  | unknown
  deriving DecidableEq, Repr

/-- `watch`: one server's compiled configuration. -/
structure Watch where
  pinned : Bool
  mode : Mode
  deriving DecidableEq, Repr

/-- The largest `int64`. -/
def maxInt64 : ℤ := 9223372036854775807

/-- The part of `Guard` that is fixed at startup. -/
structure GuardConfig where
  /-- The fingerprints of `Approved`. -/
  approved : Bytes → Option Bytes
  watched : Bytes → Option Watch
  maxListBytes : ℤ
  /-- `Config.Guard` pins a server and records its fingerprint together. -/
  pinned_iff : ∀ server w, watched server = some w → (w.pinned = true ↔ (approved server).isSome)
  range : maxListBytes ≤ maxInt64

/-- `DefaultMaxListBytes` -/
def defaultMaxListBytes : ℤ := 4194304

/-- `Guard.maxListBytes` -/
def GuardConfig.limit (cfg : GuardConfig) : ℤ :=
  if cfg.maxListBytes > 0 then cfg.maxListBytes else defaultMaxListBytes

/-- What became of drifted definitions. -/
inductive DriftOutcome where
  | refused
  | streamed
  | forwarded
  deriving DecidableEq, Repr

/-- `Event.Reason`. All but the first and the last three follow `TOOL-DEFINITION CHECK FAILED: `. -/
inductive EventReason where
  /-- `server %q is watched but not pinned; it advertises %d tool(s) %s with fingerprint %s — add that
  as "fingerprint" in the tooldefs section to enforce it` -/
  | notPinned (server : Bytes) (tools : List Bytes) (observed : Bytes)
  /-- `server %q paginated its tools/list (the result carries a nextCursor); a pinned tool surface must
  be served as one page` -/
  | paginated (server : Bytes)
  /-- `the tools/list response exceeds the %d-byte inspection limit, so its definitions cannot be
  fingerprinted` -/
  | exceedsLimit (max : ℤ)
  /-- `the tools/list response could not be decompressed: ` and the error -/
  | notDecompressed (cause : Bytes)
  /-- `the tools/list result could not be read as tool definitions: ` and the error -/
  | notDefinitions (cause : CanonicalError)
  /-- `the tools/list SSE stream is %s-encoded, so its definitions cannot be fingerprinted in flight` -/
  | streamEncoded (enc : Bytes)
  /-- `the tools/list result streamed over SSE could not be read as tool definitions: ` and the error -/
  | streamNotDefinitions (cause : CanonicalError)
  /-- `the tools/list SSE event exceeds the inspection limit, so its definitions cannot be
  fingerprinted` -/
  | eventExceedsLimit
  /-- `server %q matches its approved fingerprint again; the quarantine is lifted` -/
  | matchesAgain (server : Bytes)
  /-- `TOOL-DEFINITION DRIFT: server %q advertised %d tool(s) %s fingerprinting to %s, but %s was
  approved. ` and what became of the response -/
  | drift (server : Bytes) (tools : List Bytes) (observed approved : Bytes) (outcome : DriftOutcome)
  /-- `server %q has no approved baseline to compare against` -/
  | noBaseline (server : Bytes)
  deriving DecidableEq, Repr

/-- `Event`, with the fields that the request path does not read. -/
structure Observation extends Event where
  server : Bytes
  status : Status
  blocked : Bool
  tools : List Bytes
  page : Bool
  reason : EventReason
  principal : Bytes
  agent : Bytes
  passportID : Bytes
  delegation : List Bytes
  deriving DecidableEq, Repr

/-- The part of `Guard` that changes, with the events that were emitted. -/
structure GuardState where
  quarantined : Bytes → Option Observation
  /-- The last fingerprint reported for a server that is not pinned, empty for none. -/
  reported : Bytes → Bytes
  emitted : List Observation

/-- `hold`: quarantines a server. -/
def GuardState.hold (s : GuardState) (server : Bytes) (ev : Observation) : GuardState :=
  { s with quarantined := Function.update s.quarantined server (some ev) }

/-- `release`: lifts a quarantine. -/
def GuardState.release (s : GuardState) (server : Bytes) : GuardState :=
  { s with quarantined := Function.update s.quarantined server none }

/-- `emit` -/
def GuardState.emit (s : GuardState) (ev : Observation) : GuardState :=
  { s with emitted := s.emitted ++ [ev] }

/-- `firstReport`, which also records the fingerprint. -/
def GuardState.firstReport (s : GuardState) (server fingerprint : Bytes) : Bool × GuardState :=
  if s.reported server = fingerprint then (false, s)
  else (true, { s with reported := Function.update s.reported server fingerprint })

/-! ## Observations -/

/-- `hex.EncodeToString` -/
def hexEncode (b : Bytes) : Bytes :=
  b.flatMap fun c => [Json.hexDigit (c.toNat / 16), Json.hexDigit (c.toNat % 16)]

/-- `Fingerprint.String` -/
def fingerprintString (f : Bytes) : Bytes := Bytes.ascii "sha256:" ++ hexEncode f

/-- The event for a request, with its attribution and nothing else. -/
def newObservation (now : ℤ) (req : Request) (w : Watch) (reason : EventReason) : Observation where
  mode := w.mode
  approved := []
  observed := []
  observedAt := now
  server := req.server
  status := .unknown
  blocked := false
  tools := []
  page := false
  reason := reason
  principal := (req.principal.map Principal.id).getD []
  agent := (req.agent.map Agent.id).getD []
  passportID := (req.passport.map Passport.id).getD []
  delegation := (req.delegation.map DelegationChain.path).getD []

section

variable (hash : Bytes → Bytes) (cfg : GuardConfig) (now : ℤ) (req : Request) (w : Watch)
  (canBlock : Bool)

/-- The text of a server's approved fingerprint, if there is one. -/
def GuardConfig.baseline (server : Bytes) : Bytes :=
  ((cfg.approved server).map fingerprintString).getD []

/-- `Approved.Check` -/
def GuardConfig.check (server defs : Bytes) : Status :=
  match cfg.approved server with
  | none => .unknown
  | some want => if want = hash defs then .ok else .drifted

/-- `unverifiable`: definitions that could not be checked, and whether the response must be refused. -/
def unverifiable (reason : EventReason) (s : GuardState) : Bool × GuardState :=
  if w.pinned then
    let ev : Observation :=
      { newObservation now req w reason with
        approved := cfg.baseline req.server
        blocked := canBlock && w.mode = .deny }
    (ev.blocked, (s.hold req.server ev).emit ev)
  else (false, s)

/-- `driftReason` says what became of the response. -/
def driftOutcome : DriftOutcome :=
  if canBlock && w.mode = .deny then .refused else if canBlock then .forwarded else .streamed

/-- `observe`: compares one observed tool list with the pin, and says whether to refuse it. -/
def observe (defs : Defs) (s : GuardState) : Bool × GuardState :=
  let observed := fingerprintString (hash defs.bytes)
  let event (reason : EventReason) : Observation :=
    { newObservation now req w reason with observed, tools := defs.names, page := defs.page }
  if w.pinned = false then
    let ev := event (.notPinned req.server defs.names observed)
    let (first, s) := s.firstReport req.server observed
    (false, if first then s.emit ev else s)
  else
    let approved := cfg.baseline req.server
    if defs.page then unverifiable cfg now req w canBlock (.paginated req.server) s
    else
      match cfg.check hash req.server defs.bytes with
      | .ok =>
        let ev := { event (.matchesAgain req.server) with approved, status := .ok }
        (false,
          if (s.quarantined req.server).isSome then (s.release req.server).emit ev
          else s.release req.server)
      | .drifted =>
        let ev :=
          { event (.drift req.server defs.names observed approved (driftOutcome w canBlock)) with
            approved
            status := .drifted
            blocked := canBlock && w.mode = .deny }
        (ev.blocked, (s.hold req.server ev).emit ev)
      | .unknown => (false, s.emit { event (.noBaseline req.server) with approved })

end

/-! ## Responses -/

/-- `http.Response`, as far as it is inspected. -/
structure Response where
  statusCode : ℤ
  header : List (Bytes × List Bytes)
  /-- None if the body is nil. -/
  body : Option Body
  deriving DecidableEq, Repr

/-- `Header.Get` -/
def Response.get (resp : Response) (name : Bytes) : Bytes :=
  ((resp.header.lookup name).getD []).headD []

/-- What `strings.ToLower` writes for the character at the front, and the number of its bytes. The
result is compared with ASCII names only, so of the characters outside ASCII it changes just the two
that have an ASCII letter as their lower case: the dotted capital I and the Kelvin sign. -/
def lowerRune : Bytes → Bytes × ℕ
  | 0xc4 :: 0xb0 :: _ => ([0x69], 2)
  | 0xe2 :: 0x84 :: 0xaa :: _ => ([0x6b], 3)
  | c :: _ => ([lower c], 1)
  | [] => ([], 1)

/-- `contentEncoding`: the response's transfer compression, empty for none. -/
def Response.contentEncoding (resp : Response) : Bytes :=
  let enc := Bytes.rewrite lowerRune (Utf8.trimSpace (resp.get (Bytes.ascii "Content-Encoding")))
  if enc = Bytes.ascii "identity" then [] else enc

/-- `listsTools`: the request asks for tool definitions. -/
def listsTools (calls : List Mcprpc.Call) : Bool :=
  calls.any fun c => c.method = methodToolsList && !c.notification

/-- The error that makes the gateway refuse a response. -/
inductive Refusal where
  /-- `server %q advertised tool definitions that do not match its approved fingerprint` -/
  | noMatch (server : Bytes)
  /-- `server %q advertised tool definitions that could not be verified against its approved
  fingerprint` -/
  | notVerified (server : Bytes)
  deriving DecidableEq, Repr

/-- What comes of a response: the error, and the response that is forwarded if there is none. -/
structure Outcome where
  refusal : Option Refusal
  resp : Response
  /-- The body is handed through the watcher of event streams. -/
  watched : Bool
  deriving DecidableEq, Repr

section

variable (hash : Bytes → Bytes)
  /- `mime.ParseMediaType`, none if it fails. -/
  (parseMediaType : Bytes → Option Bytes)
  /- `gzip.NewReader`: what it reads from a compressed body. -/
  (gunzip : Bytes → Except Bytes Body)
  (cfg : GuardConfig) (now : ℤ) (req : Request)

/-- `decompress`: the definitions to fingerprint. The limit cuts them off without an error. -/
def decompress (enc body : Bytes) (max : ℤ) : Except Bytes Bytes :=
  if enc = [] then .ok body
  else if enc = Bytes.ascii "gzip" then do
    let zr ← gunzip body
    match zr.readAll max with
    | (data, none) => .ok data
    | (_, some err) => .error err
  else .error (Bytes.ascii "content-encoding " ++ enc ++
    Bytes.ascii " is not one this build can read")

/-- Refuse the response if the check says so. -/
def refuseIf (refusal : Refusal) (resp : Response) (r : Bool × GuardState) : Outcome × GuardState :=
  (⟨if r.1 then some refusal else none, resp, false⟩, r.2)

/-- What `inspectBuffered` does with the definitions of a response. -/
def inspectDefinitions (w : Watch) (plain : Bytes) (resp : Response) (s : GuardState) :
    Outcome × GuardState :=
  match toolsResult plain with
  -- an error reply, or a response without a `tools/list` result
  | none => (⟨none, resp, false⟩, s)
  | some result =>
    match canonical result with
    | .error err =>
      refuseIf (.notVerified req.server) resp
        (unverifiable cfg now req w true (.notDefinitions err) s)
    | .ok defs => refuseIf (.noMatch req.server) resp (observe hash cfg now req w true defs s)

/-- `inspectBuffered`: holds a response, checks it, and refuses it on drift. The limit is one `int64`
below the number of bytes to read, which wraps around. -/
def inspectBuffered (w : Watch) (body : Body) (resp : Response) (s : GuardState) :
    Outcome × GuardState :=
  let max := cfg.limit
  match body.readAll (Time.wrap (max + 1)) with
  | (buf, some err) => (⟨none, { resp with body := some ⟨buf, some err⟩ }, false⟩, s)
  | (buf, none) =>
    if buf.length > max then
      refuseIf (.notVerified req.server) resp
        (unverifiable cfg now req w true (.exceedsLimit max) s)
    else
      let resp := { resp with body := some ⟨buf, none⟩ }
      match decompress gunzip resp.contentEncoding buf max with
      | .error err =>
        refuseIf (.notVerified req.server) resp
          (unverifiable cfg now req w true (.notDecompressed err) s)
      | .ok plain => inspectDefinitions hash cfg now req w plain resp s

/-- `inspectStream`, up to the first byte: an event stream is watched as it goes by, unless it is
compressed. -/
def inspectStream (w : Watch) (resp : Response) (s : GuardState) : Outcome × GuardState :=
  if resp.contentEncoding ≠ [] then
    (⟨none, resp, false⟩,
      (unverifiable cfg now req w false (.streamEncoded resp.contentEncoding) s).2)
  else (⟨none, resp, true⟩, s)

/-- `Guard.Inspect` -/
def inspect (resp : Response) (s : GuardState) : Outcome × GuardState :=
  match resp.body, cfg.watched req.server with
  | some body, some w =>
    if listsTools req.calls = true ∧ resp.statusCode.tdiv 100 = 2 then
      if parseMediaType (resp.get (Bytes.ascii "Content-Type")) =
          some (Bytes.ascii "text/event-stream") then
        inspectStream cfg now req w resp s
      else inspectBuffered hash gunzip cfg now req w body resp s
    else (⟨none, resp, false⟩, s)
  | _, _ => (⟨none, resp, false⟩, s)

end

/-! ## What is refused -/

/-- The result has definitions, all of them, with the server's approved fingerprint. -/
def Matches (hash : Bytes → Bytes) (cfg : GuardConfig) (server : Bytes) (result : Json) : Prop :=
  ∃ defs, canonical result = .ok defs ∧ defs.page = false ∧
    cfg.approved server = some (hash defs.bytes)

/-- The text carries a tool list that does not match. -/
def Drifts (hash : Bytes → Bytes) (cfg : GuardConfig) (server plain : Bytes) : Prop :=
  ∃ result ∈ toolsResult plain, ¬Matches hash cfg server result

/-- A pinned server in deny mode. -/
def GuardConfig.Denies (cfg : GuardConfig) (server : Bytes) : Prop :=
  cfg.watched server = some ⟨true, .deny⟩

section

variable (hash : Bytes → Bytes) {cfg : GuardConfig} (now : ℤ) {req : Request}

theorem unverifiable_deny (reason : EventReason) (s : GuardState) :
    (unverifiable cfg now req ⟨true, .deny⟩ true reason s).1 = true := rfl

theorem observe_deny (hdeny : cfg.Denies req.server) (defs : Defs) (s : GuardState) :
    (observe hash cfg now req ⟨true, .deny⟩ true defs s).1 = true ↔
      ¬(defs.page = false ∧ cfg.approved req.server = some (hash defs.bytes)) := by
  obtain ⟨want, hwant⟩ := Option.isSome_iff_exists.mp ((cfg.pinned_iff _ _ hdeny).mp rfl)
  rw [observe]
  simp only [Bool.true_eq_false, if_false]
  split
  · next hpage => simp [hpage, unverifiable_deny]
  · next hpage =>
      rw [GuardConfig.check, hwant]
      simp only [Bool.eq_false_iff.mpr hpage, true_and, Option.some.injEq]
      by_cases heq : want = hash defs.bytes
      · simp [heq]
      · simp [heq]

theorem inspectDefinitions_deny (hdeny : cfg.Denies req.server) (plain : Bytes) (resp : Response)
    (s : GuardState) :
    (inspectDefinitions hash cfg now req ⟨true, .deny⟩ plain resp s).1.refusal.isSome = true ↔
      Drifts hash cfg req.server plain := by
  rw [inspectDefinitions, Drifts]
  cases toolsResult plain with
  | none => simp
  | some result =>
      simp only [Option.mem_some_iff, exists_eq_left', Matches]
      cases canonical result with
      | error err => simp [refuseIf, unverifiable_deny]
      | ok defs =>
          have hobserve := observe_deny hash now hdeny defs s
          simp only [refuseIf, Except.ok.injEq, exists_eq_left', ← hobserve]
          cases (observe hash cfg now req ⟨true, .deny⟩ true defs s).1 <;> simp

variable (gunzip : Bytes → Except Bytes Body)

/-- The buffered bytes are refused: they are too many, they do not decompress, or they drift. -/
def RefusedBuffer (cfg : GuardConfig) (server enc buf : Bytes) : Prop :=
  cfg.limit < buf.length ∨
    ∀ plain, decompress gunzip enc buf cfg.limit = .ok plain → Drifts hash cfg server plain

theorem inspectBuffered_deny (hdeny : cfg.Denies req.server) (data : Bytes) (resp : Response)
    (s : GuardState) :
    (inspectBuffered hash gunzip cfg now req ⟨true, .deny⟩ ⟨data, none⟩ resp s).1.refusal.isSome =
        true ↔
      RefusedBuffer hash gunzip cfg req.server resp.contentEncoding
        (data.take (Time.wrap (cfg.limit + 1)).toNat) := by
  rw [inspectBuffered, RefusedBuffer, Body.readAll_complete]
  -- putting the buffer in place of the body does not change the encoding
  have henc : ∀ b, Response.contentEncoding { resp with body := b } = resp.contentEncoding :=
    fun _ => rfl
  generalize data.take (Time.wrap (cfg.limit + 1)).toNat = buf
  simp only [henc, gt_iff_lt]
  by_cases hlong : cfg.limit < buf.length
  · simp [hlong, refuseIf, unverifiable_deny]
  · simp only [hlong, if_false, false_or]
    cases decompress gunzip resp.contentEncoding buf cfg.limit with
    | error err => simp [refuseIf, unverifiable_deny]
    | ok plain => simp [inspectDefinitions_deny hash now hdeny]

variable (parseMediaType : Bytes → Option Bytes)

/-- A response, other than an event stream, with success status to a `tools/list` request on a pinned
server in deny mode. -/
structure Inspected (cfg : GuardConfig) (req : Request) (resp : Response) : Prop where
  denies : cfg.Denies req.server
  lists : listsTools req.calls = true
  status : resp.statusCode.tdiv 100 = 2
  media : parseMediaType (resp.get (Bytes.ascii "Content-Type")) ≠
    some (Bytes.ascii "text/event-stream")

/-- When a response whose body is read to its end is refused. -/
theorem inspect_deny {resp : Response} (h : Inspected parseMediaType cfg req resp) {data : Bytes}
    (hbody : resp.body = some ⟨data, none⟩) (s : GuardState) :
    (inspect hash parseMediaType gunzip cfg now req resp s).1.refusal.isSome = true ↔
      RefusedBuffer hash gunzip cfg req.server resp.contentEncoding
        (data.take (Time.wrap (cfg.limit + 1)).toNat) := by
  have hdeny : cfg.watched req.server = some ⟨true, .deny⟩ := h.denies
  rw [inspect, hbody, hdeny]
  simp only [h.lists, h.status, h.media, and_self, if_true, if_false]
  exact inspectBuffered_deny hash now gunzip h.denies data resp s

end

theorem GuardConfig.limit_pos (cfg : GuardConfig) : 0 < cfg.limit := by
  rw [GuardConfig.limit]
  split
  · omega
  · decide

theorem GuardConfig.limit_le (cfg : GuardConfig) : cfg.limit ≤ maxInt64 := by
  rw [GuardConfig.limit]
  split
  · exact cfg.range
  · decide

/-- The number of bytes that are read: one over the limit, and none at all if the limit is the
largest `int64`. -/
theorem toNat_wrap_limit (cfg : GuardConfig) :
    (Time.wrap (cfg.limit + 1)).toNat =
      if cfg.limit < maxInt64 then cfg.limit.toNat + 1 else 0 := by
  have hpos := cfg.limit_pos
  have hle := cfg.limit_le
  split
  · next hlt =>
      rw [maxInt64] at hlt
      rw [Time.wrap, Int.bmod_eq_of_le]
      · omega
      · omega
      · omega
  · next hlt =>
      obtain heq : cfg.limit = maxInt64 := by omega
      rw [heq]
      rfl

/-- Below the largest `int64`, a body over the limit is refused, and any other one is read whole. -/
theorem refusedBuffer_take_iff (hash : Bytes → Bytes) (gunzip : Bytes → Except Bytes Body)
    {cfg : GuardConfig} (hlt : cfg.limit < maxInt64) (server enc data : Bytes) :
    RefusedBuffer hash gunzip cfg server enc (data.take (Time.wrap (cfg.limit + 1)).toNat) ↔
      cfg.limit < data.length ∨
        ∀ plain, decompress gunzip enc data cfg.limit = .ok plain → Drifts hash cfg server plain := by
  have hpos := cfg.limit_pos
  rw [toNat_wrap_limit, if_pos hlt, RefusedBuffer, List.length_take]
  by_cases hlong : cfg.limit < data.length
  · have hcut : cfg.limit < (min (cfg.limit.toNat + 1) data.length : ℕ) := by omega
    simp only [hlong, hcut, true_or]
  · have hcut : ¬cfg.limit < (min (cfg.limit.toNat + 1) data.length : ℕ) := by omega
    rw [List.take_of_length_le (by omega)]
    simp only [hlong, hcut, false_or]

theorem not_drifts_nil (hash : Bytes → Bytes) (cfg : GuardConfig) (server : Bytes) :
    ¬Drifts hash cfg server [] := by
  rintro ⟨result, hresult, -⟩
  cases hresult

/-- Without compression a body is refused if it is over the limit or drifts, but under the largest
limit nothing is read of it. -/
theorem refusedBuffer_plain_iff (hash : Bytes → Bytes) (gunzip : Bytes → Except Bytes Body)
    (cfg : GuardConfig) (server data : Bytes) :
    RefusedBuffer hash gunzip cfg server [] (data.take (Time.wrap (cfg.limit + 1)).toNat) ↔
      cfg.limit < maxInt64 ∧ (cfg.limit < data.length ∨ Drifts hash cfg server data) := by
  have hplain : ∀ b, decompress gunzip [] b cfg.limit = .ok b := fun _ => rfl
  rcases cfg.limit_le.eq_or_lt with hmax | hlt
  · have hpos := cfg.limit_pos
    rw [toNat_wrap_limit, if_neg (by omega), List.take_zero, RefusedBuffer, hplain]
    refine iff_of_false ?_ fun h => absurd h.1 (by omega)
    rintro (hlong | hdrifts)
    · rw [List.length_nil] at hlong
      omega
    · exact not_drifts_nil hash cfg server (hdrifts [] rfl)
  · rw [refusedBuffer_take_iff hash gunzip hlt, hplain]
    simp only [hlt, true_and, Except.ok.injEq, forall_eq']

end Sanad.Tooldefs
