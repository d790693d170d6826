import Sanad.Gateway

/-! # Buffering a request body

`internal/mcprpc`: which requests have a body worth reading, and the reading of it under a cap. What
is read is put back, so that the request can still be served.
-/

namespace Sanad.Mcprpc

open Gateway

/-- `DefaultMaxBody` -/
def defaultMaxBody : ℤ := 1048576

/-- `HasBody`: only POST requests carry messages. -/
def hasBody (r : HttpRequest) : Prop :=
  r.method = Bytes.ascii "POST" ∧ r.hasBody = true ∧ r.contentLength ≠ 0

instance (r : HttpRequest) : Decidable (hasBody r) := inferInstanceAs (Decidable (_ ∧ _))

/-- The errors of `BufferBody`. -/
inductive BufferError where
  /-- `ErrBodyTooLarge`: `request body exceeds the configured limit (%d bytes)` -/
  | tooLarge (limit : ℤ)
  /-- `reading request body: %w` -/
  | read (cause : Bytes)
  deriving DecidableEq, Repr

/-- The cap of `BufferBody`: the default one unless it is positive. -/
def bodyLimit (limit : ℤ) : ℤ := if limit ≤ 0 then defaultMaxBody else limit

/-- `BufferBody`: the body, and the request and its body as they are put back. The reader fails as
soon as there is a byte beyond the cap. -/
def bufferBody (limit : ℤ) (r : HttpRequest) (body : Body) :
    Except BufferError (Bytes × HttpRequest × Body) :=
  if bodyLimit limit < body.data.length then .error (.tooLarge (bodyLimit limit))
  else
    match body.err with
    | some cause => .error (.read cause)
    | none =>
      .ok (body.data,
        { r with hasBody := body.data.length ≠ 0, contentLength := body.data.length },
        ⟨body.data, none⟩)

/-- A body within the cap is read as it is. -/
theorem bufferBody_complete {limit : ℤ} (r : HttpRequest) {data : Bytes}
    (h : data.length ≤ bodyLimit limit) :
    bufferBody limit r ⟨data, none⟩ =
      .ok (data, { r with hasBody := data.length ≠ 0, contentLength := data.length },
        ⟨data, none⟩) := by
  rw [bufferBody, if_neg (not_lt.mpr h)]

/-- What is read is the body, and it is put back. -/
theorem bufferBody_eq_ok {limit : ℤ} {r r' : HttpRequest} {body body' : Body} {data : Bytes}
    (h : bufferBody limit r body = .ok (data, r', body')) : data = body.data ∧ body' = body := by
  obtain ⟨data', err⟩ := body
  rw [bufferBody] at h
  split at h
  · cases h
  · cases err with
    | some cause => cases h
    | none =>
        cases h
        exact ⟨rfl, rfl⟩

end Sanad.Mcprpc
