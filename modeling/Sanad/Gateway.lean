import Sanad.Common.Stateful
import Sanad.Mcprpc
import Sanad.Types

/-! # The gateway

`gateway`: the request that moves through the decision pipeline, and the pipeline, which stops at
the first stage that fails.

A stage runs in a world `σ` that it shares with everything else in the process: clocks, stores,
decision points and other requests. What a stage calls, it calls on the world as it finds it, and
the call may leave any other world behind.
-/

namespace Sanad.Gateway

/-! ## Requests -/

/-- `http.Request`, as far as stages read it. Header names are canonical. -/
structure HttpRequest where
  method : Bytes
  /-- The target of the request line. -/
  target : Bytes
  header : List (Bytes × List Bytes)
  contentLength : ℤ
  /-- The body is neither nil nor `http.NoBody`. -/
  hasBody : Bool
  deriving DecidableEq, Repr

/-- `Header.Values` -/
def HttpRequest.values (r : HttpRequest) (name : Bytes) : List Bytes := (r.header.lookup name).getD []

/-- `Header.Get`: the first value, or the empty string. -/
def HttpRequest.get (r : HttpRequest) (name : Bytes) : Bytes := (r.values name).headD []

/-- The lower-case form of an ASCII letter. -/
def lower (c : UInt8) : UInt8 := if 0x41 ≤ c ∧ c ≤ 0x5a then c + 0x20 else c

/-- `bearer` of the principal and the workload package: what follows a "Bearer " in any case. No
letter of it has a case variant outside ASCII. -/
def HttpRequest.bearer (r : HttpRequest) : Option Bytes :=
  let h := r.get (Bytes.ascii "Authorization")
  if 7 < h.length ∧ (h.take 7).map lower = Bytes.ascii "bearer " then some (h.drop 7) else none

/-- A body as it is read: its bytes, and the error that reading ends with, none for the end of file.
-/
structure Body where
  data : Bytes
  err : Option Bytes
  deriving DecidableEq, Repr

/-- `io.ReadAll` of an `io.LimitReader`: the bytes, and the error if it was reached. -/
def Body.readAll (b : Body) (n : ℤ) : Bytes × Option Bytes :=
  if n ≤ b.data.length then (b.data.take n.toNat, none) else (b.data, b.err)

/-- A body without an error is cut off at the limit. -/
theorem Body.readAll_complete (data : Bytes) (n : ℤ) :
    Body.readAll ⟨data, none⟩ n = (data.take n.toNat, none) := by
  show (if n ≤ data.length then (data.take n.toNat, none) else (data, none)) = _
  split
  · rfl
  · rw [List.take_of_length_le (by omega)]

/-- `Server`: a registered server, as far as stages read it. -/
structure Server where
  id : Bytes
  deriving DecidableEq, Repr

/-- `Request`: the in-flight request, whose identity fields successive stages fill. -/
structure Request where
  server : Bytes
  target : Option Server
  http : Option HttpRequest
  /-- The buffered body; none when the request carried none. -/
  body : Option Bytes
  calls : List Mcprpc.Call
  principal : Option Principal
  agent : Option Agent
  decision : Option Decision
  scope : Scope
  delegation : Option DelegationChain
  passport : Option Passport
  deriving DecidableEq, Repr

/-- The id of the server that the request will be proxied to. -/
def Request.targetID (req : Request) : Bytes :=
  match req.target with
  | some server => server.id
  | none => req.server

/-! ## Stages -/

/-- What a stage does: it reads and writes the world and the request. -/
abbrev StageM (ε σ : Type) := EStateM ε (σ × Request)

/-- `Stage` -/
structure Stage (ε σ : Type) where
  name : Bytes
  handle : StageM ε σ Unit

section

variable {ε ε' σ α : Type}

/-- The request as it is now. -/
def request : StageM ε σ Request := EStateM.read Prod.snd

/-- Write the request. -/
def updateRequest (f : Request → Request) : StageM ε σ Unit :=
  EStateM.update fun s => (s.1, f s.2)

/-- `Pipeline.Run`: the stages in order, up to the first error. -/
def run : List (Stage ε σ) → StageM ε σ Unit
  | [] => pure ()
  | stage :: stages => do
    stage.handle
    run stages

/-- A stage with its errors converted. -/
def Stage.withError (f : ε → ε') (stage : Stage ε σ) : Stage ε' σ :=
  ⟨stage.name, EStateM.convertError f stage.handle⟩

/-- The passport of a run that succeeded. -/
def minted : EStateM.Result ε (σ × Request) Unit → Option Passport
  | .ok _ s => s.2.passport
  | .error _ _ => none

theorem request_bind_eq_ok_iff {f : Request → StageM ε σ α} {w : σ} {req : Request} {a : α}
    {s : σ × Request} : (request >>= f) (w, req) = .ok a s ↔ f req (w, req) = .ok a s := by
  rw [request, EStateM.read_bind_eq_ok_iff]

theorem updateRequest_eq_ok_iff {f : Request → Request} {w : σ} {req : Request} {u : Unit}
    {s : σ × Request} :
    (updateRequest f : StageM ε σ Unit) (w, req) = .ok u s ↔ (w, f req) = s := by
  rw [updateRequest, EStateM.update_eq_ok_iff]

theorem run_nil_eq_ok_iff {s s' : σ × Request} :
    run ([] : List (Stage ε σ)) s = .ok () s' ↔ s = s' := by
  rw [run, EStateM.pure_eq_ok_iff]
  simp

theorem run_cons_eq_ok_iff {stage : Stage ε σ} {stages : List (Stage ε σ)} {s s' : σ × Request} :
    run (stage :: stages) s = .ok () s' ↔
      ∃ s₁, stage.handle s = .ok () s₁ ∧ run stages s₁ = .ok () s' := by
  rw [run, EStateM.check_bind_eq_ok_iff]

theorem run_append_eq_ok_iff {stages stages' : List (Stage ε σ)} {s s' : σ × Request} :
    run (stages ++ stages') s = .ok () s' ↔
      ∃ s₁, run stages s = .ok () s₁ ∧ run stages' s₁ = .ok () s' := by
  induction stages generalizing s with
  | nil => simp [run_nil_eq_ok_iff]
  | cons stage stages ih =>
      rw [List.cons_append, run_cons_eq_ok_iff]
      constructor
      · rintro ⟨s₁, hstage, hrest⟩
        obtain ⟨s₂, hstages, hstages'⟩ := ih.mp hrest
        exact ⟨s₂, run_cons_eq_ok_iff.mpr ⟨s₁, hstage, hstages⟩, hstages'⟩
      · rintro ⟨s₂, hstages, hstages'⟩
        obtain ⟨s₁, hstage, hrest⟩ := run_cons_eq_ok_iff.mp hstages
        exact ⟨s₁, hstage, ih.mpr ⟨s₂, hrest, hstages'⟩⟩

theorem handle_withError_eq_ok_iff {f : ε → ε'} {stage : Stage ε σ} {s s' : σ × Request} :
    (stage.withError f).handle s = .ok () s' ↔ stage.handle s = .ok () s' :=
  EStateM.convertError_eq_ok_iff

theorem minted_eq_some_iff {r : EStateM.Result ε (σ × Request) Unit} {P : Passport} :
    minted r = some P ↔ ∃ s, r = .ok () s ∧ s.2.passport = some P := by
  cases r <;> simp [minted]

end

end Sanad.Gateway
