import Sanad.Gateway

/-! # The policy stage

`policy/stage.go`: one decision per action of the request, each of them after the check that the
action lies within the delegated scope, and the narrowing of the scope to the tools that were
requested.
-/

namespace Sanad.Policy

open Gateway

/-! ## Decision points -/

/-- `MethodNone`: the method of the decision for a request that carries no call. -/
def methodNone : Bytes := Bytes.ascii "(none)"

/-- `Input`: the verified context of a decision. -/
structure Input where
  principal : Principal
  agent : Option Agent
  server : Bytes
  method : Bytes
  tool : Bytes
  delegation : Option DelegationChain
  delegatedScope : Scope
  deriving DecidableEq, Repr

/-- `PDP` -/
abbrev PDP (σ : Type) := Input → EStateM Bytes σ Decision

/-- `Approver`: it may hold the request for as long as it likes. -/
abbrev Approver (σ : Type) := Input → EStateM Bytes σ Decision

/-- `Action`: the unit of one decision. -/
structure Action where
  method : Bytes
  tool : Bytes
  deriving DecidableEq, Repr

/-- `ActionExtractor`. A nil extractor is the one that gives no actions. -/
abbrev ActionExtractor := Request → List Action

/-- `MCPActions`: one action per call. -/
def mcpActions : ActionExtractor := fun req => req.calls.map fun c => ⟨c.method, c.tool⟩

/-- The errors of the stage. -/
inductive PolicyError where
  /-- `policy: no authenticated principal` -/
  | noPrincipal
  /-- `policy: %w` -/
  | pdp (cause : Bytes)
  /-- `policy: action requires approval but no approver is configured` -/
  | noApprover
  /-- `policy: approval: %w` -/
  | approval (cause : Bytes)
  /-- `policy: denied: %s` -/
  | denied (reason : Reason)
  deriving DecidableEq, Repr

/-! ## The stage -/

/-- `granted`: an empty list of tools is unconstrained. -/
def granted (tools : List Bytes) (tool : Bytes) : Prop := tools.length = 0 ∨ tool ∈ tools

instance (tools : List Bytes) (tool : Bytes) : Decidable (granted tools tool) :=
  inferInstanceAs (Decidable (_ ∨ _))

/-- `distinct`: the tools of the actions in order, each once. -/
def distinct (actions : List Action) : List Bytes :=
  actions.foldl (fun out a => if a.tool ≠ [] ∧ a.tool ∉ out then out ++ [a.tool] else out) []

/-- The attenuation floor: the tool of an action lies within the delegated scope. -/
def WithinScope (delegated : Scope) (act : Action) : Prop :=
  act.tool ≠ [] → granted delegated.tools act.tool

instance (delegated : Scope) (act : Action) : Decidable (WithinScope delegated act) :=
  inferInstanceAs (Decidable (_ → _))

section

variable {σ : Type} (pdp : PDP σ) (approver : Option (Approver σ))

/-- `deny` -/
def deny (reason : Reason) : StageM PolicyError σ Unit := do
  updateRequest fun r => { r with decision := some ⟨.deny, reason⟩ }
  EStateM.liftExcept (.error (.denied reason))

/-- The decision of the decision point, or that of the approver if it asks for a review. -/
def evaluate (input : Input) : StageM PolicyError σ Decision := do
  let d ← EStateM.onFst .pdp (pdp input)
  if d.effect = .review then
    let a ← EStateM.liftOption approver .noApprover
    EStateM.onFst .approval (a input)
  else pure d

/-- The body of the loop over the actions. -/
def decideAction (req : Request) (principal : Principal) (act : Action) : StageM PolicyError σ Unit :=
  if WithinScope req.scope act then do
    let d ← evaluate pdp approver
      { principal := principal, agent := req.agent, server := req.server, method := act.method,
        tool := act.tool, delegation := req.delegation, delegatedScope := req.scope }
    updateRequest fun r => { r with decision := some d }
    EStateM.require (d.allowed = true) (.denied d.reason)
  else deny (.outsideScope act.tool req.scope.tools)

/-- The loop over the actions. -/
def decideActions (req : Request) (principal : Principal) : List Action → StageM PolicyError σ Unit
  | [] => pure ()
  | act :: acts => do
    decideAction pdp approver req principal act
    decideActions req principal acts

/-- `Stage` -/
def stage (extract : ActionExtractor) : Stage PolicyError σ where
  name := Bytes.ascii "policy"
  handle := do
    let req ← request
    let principal ← EStateM.liftOption req.principal .noPrincipal
    let actions := extract req
    -- a request without any call still gets one decision
    decideActions pdp approver req principal
      (if actions.length = 0 then [⟨methodNone, []⟩] else actions)
    let requested := distinct actions
    if requested.length > 0 then
      updateRequest fun r => { r with scope := ⟨requested, req.scope.budget⟩ }
    else pure ()

end

/-! ## What the stage establishes -/

theorem mem_distinct {actions : List Action} {tool : Bytes} :
    tool ∈ distinct actions ↔ tool ≠ [] ∧ ∃ act ∈ actions, act.tool = tool := by
  have hfold : ∀ (actions : List Action) (out : List Bytes),
      tool ∈ actions.foldl
        (fun out a => if a.tool ≠ [] ∧ a.tool ∉ out then out ++ [a.tool] else out) out ↔
      tool ∈ out ∨ tool ≠ [] ∧ ∃ act ∈ actions, act.tool = tool := by
    intro actions
    induction actions with
    | nil => simp
    | cons a actions ih =>
        intro out
        rw [List.foldl_cons, ih]
        split
        · next h => grind
        · next h => grind
  rw [distinct, hfold]
  simp

/-- The scope after narrowing to the tools that were requested. -/
def narrow (delegated : Scope) (requested : List Bytes) : Scope :=
  if requested = [] then delegated else ⟨requested, delegated.budget⟩

/-- A tool that an action names is in the narrowed scope. -/
theorem mem_narrow {delegated : Scope} {actions : List Action} {act : Action} (hact : act ∈ actions)
    (htool : act.tool ≠ []) : act.tool ∈ (narrow delegated (distinct actions)).tools := by
  have hmem : act.tool ∈ distinct actions := mem_distinct.mpr ⟨htool, act, hact, rfl⟩
  rw [narrow, if_neg (List.ne_nil_of_mem hmem)]
  exact hmem

section

variable {σ : Type} {pdp : PDP σ} {approver : Option (Approver σ)} {w w' : σ} {req r r' : Request}
  {principal : Principal}

theorem request_of_evaluate {input : Input} {d : Decision}
    (h : evaluate pdp approver input (w, r) = .ok d (w', r')) : r' = r := by
  simp only [evaluate, EStateM.onFst_bind_eq_ok_iff] at h
  obtain ⟨d₁, w₁, -, h⟩ := h
  split at h
  · simp only [EStateM.liftOption_bind_eq_ok_iff, EStateM.onFst_eq_ok_iff, Prod.mk.injEq] at h
    obtain ⟨-, -, -, -, -, rfl⟩ := h
    rfl
  · rw [EStateM.pure_eq_ok_iff, Prod.mk.injEq] at h
    exact h.2.2.symm

/-- An action that is decided lies within the scope; of the request, the decision alone changes. -/
theorem decideAction_eq_ok {act : Action}
    (h : decideAction pdp approver req principal act (w, r) = .ok () (w', r')) :
    WithinScope req.scope act ∧ ∃ d, r' = { r with decision := d } := by
  rw [decideAction] at h
  split at h
  · next hscope =>
      obtain ⟨d, ⟨w₁, r₁⟩, heval, hrest⟩ := EStateM.bind_eq_ok_iff.mp h
      rw [request_of_evaluate heval] at hrest
      obtain ⟨s, hs, hallowed⟩ := EStateM.check_bind_eq_ok_iff.mp hrest
      rw [updateRequest_eq_ok_iff] at hs
      rw [EStateM.require_eq_ok_iff, ← hs, Prod.mk.injEq] at hallowed
      exact ⟨hscope, some d, hallowed.2.2.symm⟩
  · cases h

/-- What one decision keeps, all of them keep. -/
theorem decideActions_eq_ok {acts : List Action}
    (h : decideActions pdp approver req principal acts (w, r) = .ok () (w', r')) :
    (∀ act ∈ acts, WithinScope req.scope act) ∧ ∃ d, r' = { r with decision := d } := by
  induction acts generalizing w r with
  | nil =>
      rw [decideActions, EStateM.pure_eq_ok_iff, Prod.mk.injEq] at h
      exact ⟨by simp, r.decision, h.2.2.symm⟩
  | cons act acts ih =>
      rw [decideActions, EStateM.check_bind_eq_ok_iff] at h
      obtain ⟨⟨w₁, r₁⟩, hact, hacts⟩ := h
      obtain ⟨hscope, d, rfl⟩ := decideAction_eq_ok hact
      obtain ⟨hscopes, d', rfl⟩ := ih hacts
      exact ⟨List.forall_mem_cons.mpr ⟨hscope, hscopes⟩, d', rfl⟩

/-- Every action lies within the delegated scope, and the scope is narrowed to the tools requested.
-/
theorem handle_stage {extract : ActionExtractor} {req' : Request}
    (h : (stage pdp approver extract).handle (w, req) = .ok () (w', req')) :
    (∀ act ∈ extract req, WithinScope req.scope act) ∧
      ∃ d, req' = { req with decision := d, scope := narrow req.scope (distinct (extract req)) } := by
  simp only [stage, request_bind_eq_ok_iff, EStateM.liftOption_bind_eq_ok_iff] at h
  obtain ⟨principal, -, h⟩ := h
  obtain ⟨⟨w₁, r₁⟩, hdecide, h⟩ := EStateM.check_bind_eq_ok_iff.mp h
  obtain ⟨hscopes, d, rfl⟩ := decideActions_eq_ok hdecide
  constructor
  · intro act hact
    rw [if_neg (by intro hnil; simp [List.length_eq_zero_iff.mp hnil] at hact)] at hscopes
    exact hscopes act hact
  · refine ⟨d, ?_⟩
    split at h
    · next hpos =>
        rw [updateRequest_eq_ok_iff, Prod.mk.injEq] at h
        rw [narrow, if_neg (List.length_pos_iff.mp hpos), ← h.2]
    · next hpos =>
        rw [EStateM.pure_eq_ok_iff, Prod.mk.injEq] at h
        rw [narrow, if_pos (by simpa using hpos), ← h.2.2]

end

end Sanad.Policy
