import Mathlib.Logic.Function.Basic
import Sanad.Audit.Hook
import Sanad.Common.Transition
import Sanad.Gateway.Proxy
import Sanad.Mcprpc.Body

/-! # Serving requests

`gateway/proxy.go` and `registry.go`: the handler of the gateway. It finds the server that a request is
for, reads its body, runs the stages, records the decision, and hands the request to the reverse proxy
of the server.

Requests are served at the same time, each by its own goroutine. A step of the system is one stage of
one request, its arrival, the record of its decision, or its way out; between two steps of a request,
others take theirs and the world may change.
-/

namespace Sanad.Gateway

/-! ## Servers -/

/-- `Registry`: the registrations, latest first, of which the latest one counts. -/
structure Registry where
  servers : List (Bytes × Upstream)
  deriving DecidableEq, Repr

inductive RegistryError where
  /-- `gateway: server must have an ID` -/
  | noID
  /-- `gateway: server %s has no upstream URL` -/
  | noUpstream (id : Bytes)
  deriving DecidableEq, Repr

namespace Registry

/-- `NewRegistry` -/
def new : Registry := ⟨[]⟩

/-- `Registry.Register` -/
def register (r : Registry) (id : Bytes) (upstream : Option Upstream) :
    Except RegistryError Registry := do
  Except.require (id ≠ []) .noID
  let upstream ← Except.ofOption upstream (.noUpstream id)
  .ok ⟨(id, upstream) :: r.servers⟩

/-- `Registry.Lookup` -/
def lookup (r : Registry) (id : Bytes) : Option Upstream := r.servers.lookup id

end Registry

/-! ## Routing -/

/-- `serverPrefix` -/
def serversPath : Bytes := Bytes.ascii "/servers/"

/-- `strings.Cut` at a slash: what is before and after it. -/
def cutSlash : Bytes → Bytes × Bytes
  | [] => ([], [])
  | c :: b => if c = 0x2f then ([], b) else (c :: (cutSlash b).1, (cutSlash b).2)

/-- `parseServerPath`: the server id and the path that the upstream gets. -/
def parseServerPath (p : Bytes) : Option (Bytes × Bytes) :=
  if serversPath.isPrefixOf p then
    let cut := cutSlash (p.drop serversPath.length)
    if cut.1 = [] then none else some (cut.1, 0x2f :: cut.2)
  else none

/-- A request as it arrives: its URL, with the path decoded, and its body. The last is the address it
comes from, if it can be read. -/
structure Inbound where
  http : HttpRequest
  url : RequestURL
  body : Body
  clientIP : Option Bytes
  deriving DecidableEq, Repr

/-- An answer of the gateway itself. -/
structure Answer where
  status : ℕ
  body : Bytes
  deriving DecidableEq, Repr

/-- `http.Error` -/
def httpError (text : String) (status : ℕ) : Answer := ⟨status, Bytes.ascii text ++ [0x0a]⟩

/-- The answer to a request that is not let through. -/
def deniedAnswer : Answer := httpError "denied" 403

/-- What goes to the reverse proxy once the request is allowed. -/
structure Forwarding where
  inbound : Inbound
  upstream : Upstream
  /-- The path behind the server id. -/
  path : Bytes
  /-- The body as it was put back. -/
  body : Body
  deriving DecidableEq, Repr

/-- What the handler finds before it runs the stages. -/
inductive Routed where
  /-- The request is not for a server. -/
  | answer (a : Answer)
  | deny (req : Request) (reason : Bytes) (a : Answer)
  | decide (req : Request) (fwd : Forwarding)
  deriving DecidableEq

/-- The text of a `ParseError`. -/
def parseErrorText : Mcprpc.ParseError → Bytes
  | .noTool =>
    Bytes.ascii "tools/call with no params.name: the tool being invoked cannot be determined"
  | .batchElement i e =>
    Bytes.ascii "batch element " ++ Json.decimalNat i ++ Bytes.ascii ": " ++ parseErrorText e

/-- The text of a `BufferError`. -/
def bufferErrorText : Mcprpc.BufferError → Bytes
  | .tooLarge limit => Bytes.ascii "request body exceeds the configured limit (" ++
      Json.decimalBytes limit ++ Bytes.ascii " bytes)"
  | .read cause => Bytes.ascii "reading request body: " ++ cause

/-- The answer to a body that cannot be read: its status alone. -/
def bufferErrorAnswer : Mcprpc.BufferError → Answer
  | .tooLarge _ => httpError "Request Entity Too Large" 413
  | .read _ => httpError "Bad Request" 400

/-- `Gateway`, with an audit hook. The texts are those that `fmt` makes of errors and reasons. -/
structure Config (ε σ : Type) where
  stages : List (Stage ε σ)
  /-- `Ready`: the text of its error. -/
  ready : Option (σ → Option Bytes)
  maxRequestBody : ℤ
  errorText : ε → Bytes
  reasonText : Reason → Bytes

section

variable {ε σ : Type}

/-- `Gateway.maxRequestBody` -/
def Config.requestLimit (g : Config ε σ) : ℤ :=
  if 0 < g.maxRequestBody then g.maxRequestBody else Mcprpc.defaultMaxBody

/-- The answer to the readiness probe. -/
def Config.readyAnswer (g : Config ε σ) (w : σ) : Answer :=
  match g.ready.bind fun ready => ready w with
  | some cause => ⟨503, Bytes.ascii "not ready: " ++ cause ++ [0x0a]⟩
  | none => ⟨200, Bytes.ascii "ready"⟩

/-- A request before the stages have run. -/
def initialRequest (id : Bytes) (target : Option Server) (http : HttpRequest) : Request where
  server := id
  target := target
  http := some http
  body := none
  calls := []
  principal := none
  agent := none
  decision := none
  scope := ⟨[], none⟩
  delegation := none
  passport := none

/-- `ServeHTTP` for a registered server, up to the stages: its body is read, and the calls in it. -/
def Config.receive (g : Config ε σ) (id path : Bytes) (upstream : Upstream) (r : Inbound) : Routed :=
  let req := initialRequest id (some ⟨id⟩) r.http
  if Mcprpc.hasBody r.http then
    match Mcprpc.bufferBody g.requestLimit r.http r.body with
    | .error e => .deny req (bufferErrorText e) (bufferErrorAnswer e)
    | .ok (data, http, body) =>
      let req := { req with http := some http, body := some data }
      match Mcprpc.parse data with
      | .error e =>
        .deny req (Bytes.ascii "malformed JSON-RPC: " ++ parseErrorText e)
          (httpError "malformed JSON-RPC request" 400)
      | .ok calls => .decide { req with calls := calls } ⟨r, upstream, path, body⟩
  else .decide req ⟨r, upstream, path, r.body⟩

/-- `ServeHTTP` up to the stages. -/
def Config.route (g : Config ε σ) (registry : Registry) (w : σ) (r : Inbound) : Routed :=
  if r.url.path = Bytes.ascii "/healthz" then .answer ⟨200, Bytes.ascii "ok"⟩
  else if r.url.path = Bytes.ascii "/readyz" then .answer (g.readyAnswer w)
  else
    match parseServerPath r.url.path with
    | none => .answer (httpError "404 page not found" 404)
    | some (id, path) =>
      match registry.lookup id with
      | none =>
        .deny (initialRequest id none r.http) (Bytes.ascii "unknown server")
          (httpError "unknown server" 404)
      | some upstream => g.receive id path upstream r

/-! ## The system -/

/-- What becomes of a request. -/
inductive Outcome where
  | deny (reason : Bytes) (a : Answer)
  | allow (fwd : Forwarding)
  deriving DecidableEq

/-- A decision, with the request as the stages have left it. -/
structure Verdict where
  req : Request
  outcome : Outcome
  deriving DecidableEq

/-- How far a request has come. -/
inductive Phase (ε σ : Type) where
  | idle
  /-- Answered without a decision. -/
  | unrouted (a : Answer)
  /-- The stages that are left. -/
  | deciding (req : Request) (fwd : Forwarding) (rest : List (Stage ε σ))
  | recording (v : Verdict)
  /-- The decision is on the log. A denial is answered. -/
  | recorded (v : Verdict)
  /-- Handed to the reverse proxy. -/
  | proxied (req : Request) (fwd : Forwarding)

structure State (ε σ : Type) where
  world : σ
  registry : Registry
  log : Audit.HashChainLog
  phase : ℕ → Phase ε σ
  /-- What has been sent to an upstream, and for which request. -/
  sent : List (ℕ × Outbound)

inductive Event (σ : Type) where
  /-- A request arrives. -/
  | arrive (k : ℕ) (r : Inbound)
  /-- The next stage of a request runs, or the end of the stages is reached. -/
  | stage (k : ℕ)
  /-- The decision is recorded, at the given time. -/
  | record (k : ℕ) (now : ℤ)
  /-- The request goes to the reverse proxy. -/
  | forward (k : ℕ)
  /-- Anything else in the process happens. -/
  | world (w : σ)
  /-- A server is registered. -/
  | register (id : Bytes) (upstream : Option Upstream)

/-- The gateway before the first request. -/
def State.new (w : σ) : State ε σ := ⟨w, .new, .new, fun _ => .idle, []⟩

/-- A request comes to another phase. -/
def State.goto (s : State ε σ) (k : ℕ) (p : Phase ε σ) : State ε σ :=
  { s with phase := Function.update s.phase k p }

/-- The decision when all stages have passed: without a passport the request is denied. -/
def concluded (req : Request) (fwd : Forwarding) : Verdict :=
  match req.passport with
  | none => ⟨req, .deny (Bytes.ascii "no passport minted") deniedAnswer⟩
  | some _ => ⟨req, .allow fwd⟩

/-- What is recorded of a decision. -/
def Config.entry (g : Config ε σ) (now : ℤ) (v : Verdict) : Audit.Entry :=
  match v.outcome with
  | .deny reason _ => Audit.gatewayHook g.reasonText now v.req false reason
  | .allow _ => Audit.gatewayHook g.reasonText now v.req true (Bytes.ascii "allow")

/-- What the reverse proxy sends for a request. -/
def Forwarding.outbound (fwd : Forwarding) (req : Request) : Option Outbound :=
  req.http.bind fun http =>
    Gateway.outbound fwd.upstream ⟨fwd.path, fwd.inbound.url.rawQuery⟩ fwd.inbound.clientIP http fwd.body

variable (H : Hash 32) (g : Config ε σ)

/-- A step of the system. -/
def step (s : State ε σ) : Event σ → Option (State ε σ)
  | .arrive k r =>
    match s.phase k with
    | .idle =>
      match g.route s.registry s.world r with
      | .answer a => some (s.goto k (.unrouted a))
      | .deny req reason a => some (s.goto k (.recording ⟨req, .deny reason a⟩))
      | .decide req fwd => some (s.goto k (.deciding req fwd g.stages))
    | _ => none
  | .stage k =>
    match s.phase k with
    | .deciding req fwd [] => some (s.goto k (.recording (concluded req fwd)))
    | .deciding req fwd (stage :: rest) =>
      match stage.handle (s.world, req) with
      | .ok _ (w, req') => some ({ s with world := w }.goto k (.deciding req' fwd rest))
      | .error e (w, req') =>
        some ({ s with world := w }.goto k
          (.recording ⟨req', .deny (g.errorText e) deniedAnswer⟩))
    | _ => none
  | .record k now =>
    match s.phase k with
    | .recording v => some ({ s with log := (s.log.commit H (g.entry now v)).2 }.goto k (.recorded v))
    | _ => none
  | .forward k =>
    match s.phase k with
    | .recorded ⟨req, .allow fwd⟩ =>
      some ({ s with sent := s.sent ++ ((fwd.outbound req).map fun out => (k, out)).toList }.goto k
        (.proxied req fwd))
    | _ => none
  | .world w => some { s with world := w }
  | .register id upstream =>
    match s.registry.register id upstream with
    | .ok registry => some { s with registry := registry }
    | .error _ => some s

end

end Sanad.Gateway
