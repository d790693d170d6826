import Sanad.Gateway

/-! # The principal stage

`principal`: the stage that authenticates the accountable principal behind a request. What the
bearer token has to be is left to the authenticator.
-/

namespace Sanad.PrincipalAuth

open Gateway

variable {σ : Type}

/-- `Authenticator` and `RequestAuthenticator`: the token, the request and its body. -/
abbrev Authenticator (σ : Type) :=
  Bytes → HttpRequest → Option Bytes → EStateM Bytes σ (Option Principal)

/-- The errors of the stage. -/
inductive PrincipalError where
  /-- `principal: no request to authenticate` -/
  | noRequest
  /-- `principal: missing bearer token` -/
  | missingToken
  /-- An error of the authenticator. -/
  | authenticator (text : Bytes)
  deriving DecidableEq, Repr

/-- `Stage` -/
def stage (a : Authenticator σ) : Stage PrincipalError σ where
  name := Bytes.ascii "principal"
  handle := do
    let req ← request
    let http ← EStateM.liftOption req.http .noRequest
    let raw ← EStateM.liftOption http.bearer .missingToken
    let p ← EStateM.onFst .authenticator (a raw http req.body)
    updateRequest fun r => { r with principal := p }

/-- The stage sets the principal and nothing else. -/
theorem handle_stage {a : Authenticator σ} {w w' : σ} {req req' : Request}
    (h : (stage a).handle (w, req) = .ok () (w', req')) :
    ∃ p, req' = { req with principal := p } := by
  simp only [stage, request_bind_eq_ok_iff, EStateM.liftOption_bind_eq_ok_iff,
    EStateM.onFst_bind_eq_ok_iff, updateRequest_eq_ok_iff, Prod.mk.injEq] at h
  obtain ⟨-, -, -, -, p, -, -, -, rfl⟩ := h
  exact ⟨p, rfl⟩

end Sanad.PrincipalAuth
