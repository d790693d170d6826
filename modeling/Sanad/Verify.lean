import Sanad.Mcprpc.Body
import Sanad.Passport

/-! # Verifying passports

`verify`: what a resource server embeds. The verifier checks a passport offline, and the middleware
serves a request only with a passport for the server, and with `EnforceScope` only if the passport's
scope covers every tool that the request calls.
-/

namespace Sanad.Verify

open Gateway

/-! ## The verifier -/

/-- The errors of `Verifier.Verify`. -/
inductive VerifyError where
  /-- `verify: unknown signing key` -/
  | unknownKey
  | passport (e : Passport.PassportError)
  deriving DecidableEq, Repr

/-- `Verifier`, over what its key resolver holds. The clock value it reads is given to `verify`. -/
structure Verifier where
  keys : Bytes → Option Bytes

/-- `Verifier.Verify` -/
def Verifier.verify (S : SignatureScheme) (v : Verifier) (raw audience : Bytes) (now : ℤ) :
    Except VerifyError Passport := do
  let kid ← (Passport.keyID raw).mapError .passport
  let pub ← Except.ofOption (v.keys kid) .unknownKey
  let claims ← (Passport.verify S pub raw audience now).mapError .passport
  .ok claims.toPassport

/-! ## The scope -/

/-- `Allows`: an empty set of tools is unconstrained. -/
def allows (p : Passport) (tool : Bytes) : Prop := p.scope.tools.length = 0 ∨ tool ∈ p.scope.tools

instance (p : Passport) (tool : Bytes) : Decidable (allows p tool) :=
  inferInstanceAs (Decidable (_ ∨ _))

/-- The errors of `RequireScope`. -/
inductive ScopeError where
  /-- `ErrNoPassport`: `verify: no verified passport on the request context` -/
  | noPassport
  /-- `ErrOutOfScope`, with `%q is not in %v` -/
  | outOfScope (tool : Bytes) (tools : List Bytes)
  deriving DecidableEq, Repr

/-- `RequireScope`, on what `FromContext` returns. -/
def requireScope (ctx : Option Passport) (tool : Bytes) : Except ScopeError Unit := do
  let p ← Except.ofOption ctx .noPassport
  Except.require (allows p tool) (.outOfScope tool p.scope.tools)

/-! ## The middleware -/

/-- `Option` -/
inductive MiddlewareOption where
  | enforceScope
  | requireScopedPassport
  | withMaxRequestBody (n : ℤ)

/-- `options` -/
structure Options where
  enforceScope : Bool
  requireScoped : Bool
  maxBody : ℤ

/-- Apply an option. -/
def Options.apply (o : Options) : MiddlewareOption → Options
  | .enforceScope => { o with enforceScope := true }
  | .requireScopedPassport => { o with requireScoped := true }
  | .withMaxRequestBody n => { o with maxBody := n }

/-- The options of a middleware. -/
def Options.new (opts : List MiddlewareOption) : Options := opts.foldl Options.apply ⟨false, false, 0⟩

/-- The answers of the middleware in place of the handler's. -/
inductive Refusal where
  /-- 401 `missing passport` -/
  | missingPassport
  /-- 401 `invalid passport` -/
  | invalidPassport
  /-- 403 `passport carries no tool scope` -/
  | noToolScope
  /-- 413 `Request Entity Too Large` -/
  | tooLarge
  /-- 400 `Bad Request` -/
  | badRequest
  /-- 400 `malformed JSON-RPC request` -/
  | malformed
  /-- 403 `tool outside the passport scope` -/
  | outOfScope
  deriving DecidableEq, Repr

/-- What the wrapped handler is called with: the passport on the context, the request and its body.
-/
structure Served where
  passport : Passport
  request : HttpRequest
  body : Body
  deriving DecidableEq, Repr

/-- The answer to a body that cannot be buffered. -/
def ofBufferError : Mcprpc.BufferError → Refusal
  | .tooLarge _ => .tooLarge
  | .read _ => .badRequest

/-- The loop over the calls of the body. -/
def checkCalls (p : Passport) : List Mcprpc.Call → Except Refusal Unit
  | [] => .ok ()
  | c :: calls =>
    if c.tool = [] then checkCalls p calls
    else if allows p c.tool then checkCalls p calls
    else .error .outOfScope

/-- The block of `Middleware` that enforces the scope. -/
def enforce (limit : ℤ) (p : Passport) (r : HttpRequest) (body : Body) : Except Refusal Served := do
  let (data, r', body') ← (Mcprpc.bufferBody limit r body).mapError ofBufferError
  let calls ← (Mcprpc.parse data).mapError fun _ => .malformed
  checkCalls p calls
  .ok ⟨p, r', body'⟩

section

variable (S : SignatureScheme) (v : Verifier) (audience : Bytes) (o : Options) (now : ℤ)
  (r : HttpRequest) (body : Body)

/-- `Middleware` -/
def middleware : Except Refusal Served := do
  let raw ← Except.ofOption r.bearer .missingPassport
  let p ← (v.verify S raw audience now).mapError fun _ => .invalidPassport
  Except.require (¬(o.requireScoped = true ∧ p.scope.tools.length = 0)) .noToolScope
  if o.enforceScope = true ∧ Mcprpc.hasBody r then enforce o.maxBody p r body
  else .ok ⟨p, r, body⟩

end

/-! ## What is served -/

theorem requireScope_eq_ok_iff {ctx : Option Passport} {tool : Bytes} :
    requireScope ctx tool = .ok () ↔ ∃ p ∈ ctx, allows p tool := by
  simp only [requireScope, Except.bind_eq_ok_iff, Except.ofOption_eq_ok_iff,
    Except.require_eq_ok_iff, Option.mem_def]

theorem checkCalls_eq_ok_iff {p : Passport} {calls : List Mcprpc.Call} :
    checkCalls p calls = .ok () ↔ ∀ c ∈ calls, c.tool ≠ [] → allows p c.tool := by
  induction calls with
  | nil => simp [checkCalls]
  | cons c calls ih =>
      rw [checkCalls, List.forall_mem_cons, ← ih]
      by_cases htool : c.tool = []
      · simp [htool]
      · by_cases hallows : allows p c.tool
        · simp [htool, hallows]
        · simp [htool, hallows]

/-- A body within the cap is handed on as it is if the scope covers its calls. -/
theorem enforce_complete {limit : ℤ} {p : Passport} (r : HttpRequest) {data : Bytes}
    {calls : List Mcprpc.Call} (hlimit : data.length ≤ Mcprpc.bodyLimit limit)
    (hcalls : Mcprpc.parse data = .ok calls)
    (hscope : ∀ c ∈ calls, c.tool ≠ [] → allows p c.tool) :
    ∃ r', enforce limit p r ⟨data, none⟩ = .ok ⟨p, r', ⟨data, none⟩⟩ := by
  have hcheck := checkCalls_eq_ok_iff.mpr hscope
  rw [enforce, Except.bind_of_eq_ok (Except.mapError_eq_ok_iff.mpr
    (Mcprpc.bufferBody_complete r hlimit))]
  dsimp only
  rw [Except.bind_of_eq_ok (Except.mapError_eq_ok_iff.mpr hcalls), Except.bind_of_eq_ok hcheck]
  exact ⟨_, rfl⟩

/-- What passes the check has its body back and its calls within the scope. -/
theorem enforce_eq_ok {limit : ℤ} {p : Passport} {r : HttpRequest} {body : Body} {s : Served}
    (h : enforce limit p r body = .ok s) :
    s.passport = p ∧ s.body = body ∧ ∃ calls, Mcprpc.parse body.data = .ok calls ∧
      ∀ c ∈ calls, c.tool ≠ [] → allows p c.tool := by
  simp only [enforce, Except.bind_eq_ok_iff, Except.mapError_eq_ok_iff] at h
  obtain ⟨⟨data, r', body'⟩, hbuffer, calls, hcalls, ⟨⟩, hcheck, hs⟩ := h
  obtain ⟨rfl, rfl⟩ := Mcprpc.bufferBody_eq_ok hbuffer
  cases hs
  exact ⟨rfl, rfl, calls, hcalls, checkCalls_eq_ok_iff.mp hcheck⟩

section

variable {S : SignatureScheme} {v : Verifier} {audience : Bytes} {o : Options} {now : ℤ}
  {r : HttpRequest} {body : Body}

/-- With a passport that verifies, and is not refused for want of a scope, it comes down to the
check of the body. -/
theorem middleware_of_verify {raw : Bytes} {p : Passport} (hbearer : r.bearer = some raw)
    (hverify : v.verify S raw audience now = .ok p)
    (hscoped : ¬(o.requireScoped = true ∧ p.scope.tools.length = 0)) :
    middleware S v audience o now r body =
      if o.enforceScope = true ∧ Mcprpc.hasBody r then enforce o.maxBody p r body
      else .ok ⟨p, r, body⟩ := by
  rw [middleware, Except.bind_of_eq_ok (Except.ofOption_eq_ok_iff.mpr hbearer),
    Except.bind_of_eq_ok (Except.mapError_eq_ok_iff.mpr hverify),
    Except.bind_of_eq_ok (a := ()) (Except.require_eq_ok_iff.mpr hscoped)]

/-- What is served has a passport for the server and its body as it came; if the scope is enforced,
every call of the body that names a tool is within it. -/
theorem middleware_eq_ok {s : Served} (h : middleware S v audience o now r body = .ok s) :
    (∃ raw, r.bearer = some raw ∧ v.verify S raw audience now = .ok s.passport) ∧ s.body = body ∧
      (o.enforceScope = true → Mcprpc.hasBody r → ∃ calls, Mcprpc.parse body.data = .ok calls ∧
        ∀ c ∈ calls, c.tool ≠ [] → requireScope (some s.passport) c.tool = .ok ()) := by
  simp only [middleware, Except.bind_eq_ok_iff, Except.mapError_eq_ok_iff,
    Except.ofOption_eq_ok_iff, Except.require_eq_ok_iff] at h
  obtain ⟨raw, hbearer, p, hverify, -, -, h⟩ := h
  split at h
  · obtain ⟨rfl, hbody, calls, hcalls, hscope⟩ := enforce_eq_ok h
    refine ⟨⟨raw, hbearer, hverify⟩, hbody, fun _ _ => ⟨calls, hcalls, fun c hc htool => ?_⟩⟩
    exact requireScope_eq_ok_iff.mpr ⟨_, rfl, hscope c hc htool⟩
  · next hnot =>
      cases h
      exact ⟨⟨raw, hbearer, hverify⟩, rfl, fun henforce hbody => absurd ⟨henforce, hbody⟩ hnot⟩

end

end Sanad.Verify
