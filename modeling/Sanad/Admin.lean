import Mathlib.Data.Finset.SDiff
import Mathlib.Data.List.AList
import Mathlib.Data.List.Sort
import Sanad.Common.Except
import Sanad.Common.Transition
import Sanad.Types

/-! # The control plane

`admin`: the records of principals, agents and blueprints, and the kill-switch that the service writes.
Revoking an id takes the agents that hang off it as well, and restoring it brings them back. Ids of
principals, agents and blueprints share one kill-switch, and a record may be overwritten at any time.
-/

namespace Sanad.Admin

/-- `Blueprint` -/
structure Blueprint where
  id : Bytes
  principalID : Bytes
  tier : Bytes
  servers : List Bytes
  tools : List Bytes
  deriving DecidableEq, Repr

/-- `StoreError.Op` -/
inductive StoreOp where
  | revoke
  | restore
  deriving DecidableEq, Repr

/-- The errors of the service. -/
inductive AdminError where
  /-- `admin: principal id required` -/
  | principalIDRequired
  /-- `admin: agent id required` -/
  | agentIDRequired
  /-- `admin: agent must reference a principal` -/
  | agentWithoutPrincipal
  /-- `admin: unknown principal %q` -/
  | unknownPrincipal (id : Bytes)
  /-- `admin: blueprint id required` -/
  | blueprintIDRequired
  /-- `admin: blueprint must reference a principal` -/
  | blueprintWithoutPrincipal
  /-- `admin: unknown blueprint %q` -/
  | unknownBlueprint (id : Bytes)
  /-- `admin: id required` -/
  | idRequired
  /-- `StoreError`, without its cause. -/
  | store (op : StoreOp) (ids applied : List Bytes)
  deriving DecidableEq, Repr

/-- `Service`: its records, and the ids on the kill-switch. -/
structure Service where
  principals : AList fun _ : Bytes => Principal
  agents : AList fun _ : Bytes => Agent
  blueprints : AList fun _ : Bytes => Blueprint
  kill : Finset Bytes

/-- `NewService`, with an empty kill-switch. -/
def Service.new : Service := ⟨∅, ∅, ∅, ∅⟩

/-- `RegisterPrincipal` -/
def Service.registerPrincipal (s : Service) (p : Principal) : Except AdminError Service := do
  Except.require (p.id ≠ []) .principalIDRequired
  .ok { s with principals := s.principals.insert p.id p }

/-- `RegisterAgent` -/
def Service.registerAgent (s : Service) (a : Agent) : Except AdminError Service := do
  Except.require (a.id ≠ []) .agentIDRequired
  Except.require (a.principalID ≠ []) .agentWithoutPrincipal
  Except.require (a.principalID ∈ s.principals) (.unknownPrincipal a.principalID)
  .ok { s with agents := s.agents.insert a.id a }

/-- `RegisterBlueprint` -/
def Service.registerBlueprint (s : Service) (bp : Blueprint) : Except AdminError Service := do
  Except.require (bp.id ≠ []) .blueprintIDRequired
  Except.require (bp.principalID ≠ []) .blueprintWithoutPrincipal
  Except.require (bp.principalID ∈ s.principals) (.unknownPrincipal bp.principalID)
  .ok { s with blueprints := s.blueprints.insert bp.id bp }

/-- `InstantiateAgent`: the agent, and the service with it. -/
def Service.instantiateAgent (s : Service) (blueprintID agentID : Bytes) :
    Except AdminError (Agent × Service) := do
  Except.require (agentID ≠ []) .agentIDRequired
  let bp ← Except.ofOption (s.blueprints.lookup blueprintID) (.unknownBlueprint blueprintID)
  let a : Agent := ⟨agentID, bp.principalID, blueprintID, false, 0⟩
  .ok (a, { s with agents := s.agents.insert agentID a })

/-- The agent hangs off the id, as its principal or its blueprint. -/
def HangsOff (a : Agent) (id : Bytes) : Prop := a.principalID = id ∨ a.blueprintID = id

instance (a : Agent) (id : Bytes) : Decidable (HangsOff a id) := inferInstanceAs (Decidable (_ ∨ _))

/-- `cascade` -/
def Service.cascade (s : Service) (id : Bytes) : List Bytes :=
  id :: (((s.agents.entries.filter fun e => e.1 ≠ id ∧ HangsOff e.2 id).map Sigma.fst).insertionSort
    fun a b => a ≤ b)

/-- `confirmRevoked` -/
def Service.confirmRevoked (s : Service) (ids : List Bytes) : List Bytes :=
  ids.filter fun id => id ∈ s.kill

section

variable {β : Type}

/-- Overwrite the record with the id, if there is one. -/
def modify (f : β → β) (m : AList fun _ : Bytes => β) (id : Bytes) : AList fun _ : Bytes => β :=
  match m.lookup id with
  | some x => m.insert id (f x)
  | none => m

theorem lookup_modify (f : β → β) (m : AList fun _ : Bytes => β) (id id' : Bytes) :
    (modify f m id).lookup id' = if id' = id then (m.lookup id').map f else m.lookup id' := by
  rw [modify]
  split
  · next x hx =>
      split_ifs with heq
      · rw [heq, AList.lookup_insert, hx, Option.map_some]
      · rw [AList.lookup_insert_ne heq]
  · next hx =>
      split_ifs with heq
      · rw [heq, hx, Option.map_none]
      · rfl

/-- Every record with one of the ids is overwritten, more than once if the id is there more than
once. -/
theorem lookup_foldl_modify {f : β → β} (hf : ∀ x, f (f x) = f x) (ids : List Bytes)
    (m : AList fun _ : Bytes => β) (id : Bytes) :
    (ids.foldl (modify f) m).lookup id = if id ∈ ids then (m.lookup id).map f else m.lookup id := by
  induction ids generalizing m with
  | nil => simp
  | cons x ids ih =>
      rw [List.foldl_cons, ih, lookup_modify]
      by_cases hx : id = x
      · have htwice : f ∘ f = f := funext hf
        simp [hx, Option.map_map, htwice]
      · simp [hx]

end

/-- The bookkeeping of `Revoke` and `Restore`: the flags of the principal with the id and of the agents
with the ids. -/
def Service.setDisabled (s : Service) (disabled : Bool) (id : Bytes) (ids : List Bytes) : Service :=
  { s with
    principals := modify (fun p => { p with disabled := disabled }) s.principals id
    agents := ids.foldl (modify fun a => { a with disabled := disabled }) s.agents }

/-- `Revoke`, whose write to the kill-switch succeeds or fails. -/
def Service.revoke (s : Service) (id : Bytes) (written : Bool) : Except AdminError Service := do
  Except.require (id ≠ []) .idRequired
  let ids := s.cascade id
  Except.require (written = true) (.store .revoke ids (s.confirmRevoked ids))
  .ok ({ s with kill := s.kill ∪ ids.toFinset }.setDisabled true id ids)

/-- `Restore`, whose write to the kill-switch succeeds or fails. -/
def Service.restore (s : Service) (id : Bytes) (written : Bool) : Except AdminError Service := do
  Except.require (id ≠ []) .idRequired
  let ids := s.cascade id
  Except.require (written = true) (.store .restore ids [])
  .ok ({ s with kill := s.kill \ ids.toFinset }.setDisabled false id ids)

/-! ## Runs -/

/-- A call of the service. -/
inductive AdminEvent where
  | registerPrincipal (p : Principal)
  | registerAgent (a : Agent)
  | registerBlueprint (bp : Blueprint)
  | instantiateAgent (blueprintID agentID : Bytes)
  | revoke (id : Bytes) (written : Bool)
  | restore (id : Bytes) (written : Bool)

/-- What a call returns. -/
def Service.call (s : Service) : AdminEvent → Except AdminError Service
  | .registerPrincipal p => s.registerPrincipal p
  | .registerAgent a => s.registerAgent a
  | .registerBlueprint bp => s.registerBlueprint bp
  | .instantiateAgent blueprintID agentID => (s.instantiateAgent blueprintID agentID).map Prod.snd
  | .revoke id written => s.revoke id written
  | .restore id written => s.restore id written

/-- A call that fails changes nothing. -/
def adminStep (s : Service) (e : AdminEvent) : Option Service :=
  match s.call e with
  | .ok s' => some s'
  | .error _ => some s

/-- The call is well formed, refers to records that exist, and its write to the kill-switch, if it
makes one, succeeds. -/
def Accepted (s : Service) : AdminEvent → Prop
  | .registerPrincipal p => p.id ≠ []
  | .registerAgent a => a.id ≠ [] ∧ a.principalID ≠ [] ∧ a.principalID ∈ s.principals
  | .registerBlueprint bp => bp.id ≠ [] ∧ bp.principalID ≠ [] ∧ bp.principalID ∈ s.principals
  | .instantiateAgent blueprintID agentID => agentID ≠ [] ∧ blueprintID ∈ s.blueprints
  | .revoke id written => id ≠ [] ∧ written = true
  | .restore id written => id ≠ [] ∧ written = true

instance (s : Service) : DecidablePred (Accepted s)
  | .registerPrincipal p => inferInstanceAs (Decidable (p.id ≠ []))
  | .registerAgent _ => inferInstanceAs (Decidable (_ ∧ _ ∧ _))
  | .registerBlueprint _ => inferInstanceAs (Decidable (_ ∧ _ ∧ _))
  | .instantiateAgent _ _ => inferInstanceAs (Decidable (_ ∧ _))
  | .revoke _ _ => inferInstanceAs (Decidable (_ ∧ _))
  | .restore _ _ => inferInstanceAs (Decidable (_ ∧ _))

/-- What a successful call does. -/
inductive Effect (s : Service) : AdminEvent → Service → Prop where
  | registerPrincipal {p : Principal} (h : Accepted s (.registerPrincipal p)) :
      Effect s (.registerPrincipal p) { s with principals := s.principals.insert p.id p }
  | registerAgent {a : Agent} (h : Accepted s (.registerAgent a)) :
      Effect s (.registerAgent a) { s with agents := s.agents.insert a.id a }
  | registerBlueprint {bp : Blueprint} (h : Accepted s (.registerBlueprint bp)) :
      Effect s (.registerBlueprint bp) { s with blueprints := s.blueprints.insert bp.id bp }
  | instantiateAgent {blueprintID agentID : Bytes} {bp : Blueprint}
      (h : Accepted s (.instantiateAgent blueprintID agentID))
      (hbp : s.blueprints.lookup blueprintID = some bp) :
      Effect s (.instantiateAgent blueprintID agentID)
        { s with agents := s.agents.insert agentID ⟨agentID, bp.principalID, blueprintID, false, 0⟩ }
  | revoke {id : Bytes} (h : Accepted s (.revoke id true)) :
      Effect s (.revoke id true)
        ({ s with kill := s.kill ∪ (s.cascade id).toFinset }.setDisabled true id (s.cascade id))
  | restore {id : Bytes} (h : Accepted s (.restore id true)) :
      Effect s (.restore id true)
        ({ s with kill := s.kill \ (s.cascade id).toFinset }.setDisabled false id (s.cascade id))

section

variable {s s' : Service}

theorem revoke_eq_ok {id : Bytes} {written : Bool} (h : s.revoke id written = .ok s') :
    id ≠ [] ∧ written = true ∧
      s' = { s with kill := s.kill ∪ (s.cascade id).toFinset }.setDisabled true id (s.cascade id) := by
  rw [Service.revoke, Except.check_bind_eq_ok_iff, Except.require_eq_ok_iff] at h
  obtain ⟨hid, h⟩ := h
  obtain ⟨hwritten, h⟩ := Except.check_bind_eq_ok_iff.mp h
  cases h
  exact ⟨hid, Except.require_eq_ok_iff.mp hwritten, rfl⟩

theorem restore_eq_ok {id : Bytes} {written : Bool} (h : s.restore id written = .ok s') :
    id ≠ [] ∧ written = true ∧
      s' = { s with kill := s.kill \ (s.cascade id).toFinset }.setDisabled false id (s.cascade id) := by
  rw [Service.restore, Except.check_bind_eq_ok_iff, Except.require_eq_ok_iff] at h
  obtain ⟨hid, h⟩ := h
  obtain ⟨hwritten, h⟩ := Except.check_bind_eq_ok_iff.mp h
  cases h
  exact ⟨hid, Except.require_eq_ok_iff.mp hwritten, rfl⟩

theorem effect_of_call {e : AdminEvent} (h : s.call e = .ok s') : Effect s e s' := by
  cases e with
  | registerPrincipal p =>
      rw [Service.call, Service.registerPrincipal, Except.check_bind_eq_ok_iff,
        Except.require_eq_ok_iff] at h
      obtain ⟨hid, h⟩ := h
      cases h
      exact .registerPrincipal hid
  | registerAgent a =>
      rw [Service.call, Service.registerAgent, Except.check_bind_eq_ok_iff,
        Except.require_eq_ok_iff, Except.check_bind_eq_ok_iff, Except.require_eq_ok_iff,
        Except.check_bind_eq_ok_iff, Except.require_eq_ok_iff] at h
      obtain ⟨hid, hprincipal, hknown, h⟩ := h
      cases h
      exact .registerAgent ⟨hid, hprincipal, hknown⟩
  | registerBlueprint bp =>
      rw [Service.call, Service.registerBlueprint, Except.check_bind_eq_ok_iff,
        Except.require_eq_ok_iff, Except.check_bind_eq_ok_iff, Except.require_eq_ok_iff,
        Except.check_bind_eq_ok_iff, Except.require_eq_ok_iff] at h
      obtain ⟨hid, hprincipal, hknown, h⟩ := h
      cases h
      exact .registerBlueprint ⟨hid, hprincipal, hknown⟩
  | instantiateAgent blueprintID agentID =>
      cases hcall : s.instantiateAgent blueprintID agentID with
      | error err =>
          rw [Service.call, hcall] at h
          cases h
      | ok r =>
          rw [Service.call, hcall] at h
          cases h
          rw [Service.instantiateAgent, Except.check_bind_eq_ok_iff, Except.require_eq_ok_iff,
            Except.bind_eq_ok_iff] at hcall
          obtain ⟨hid, bp, hbp, hr⟩ := hcall
          cases hr
          rw [Except.ofOption_eq_ok_iff] at hbp
          exact .instantiateAgent ⟨hid, AList.lookup_isSome.mp (by rw [hbp]; rfl)⟩ hbp
  | revoke id written =>
      obtain ⟨hid, rfl, rfl⟩ := revoke_eq_ok h
      exact .revoke ⟨hid, rfl⟩
  | restore id written =>
      obtain ⟨hid, rfl, rfl⟩ := restore_eq_ok h
      exact .restore ⟨hid, rfl⟩

/-- A call that is accepted succeeds. -/
theorem call_of_accepted {e : AdminEvent} (h : Accepted s e) : ∃ s', s.call e = .ok s' := by
  cases e with
  | registerPrincipal p =>
      exact ⟨_, Except.check_bind_eq_ok_iff.mpr ⟨Except.require_eq_ok_iff.mpr h, rfl⟩⟩
  | registerAgent a =>
      exact ⟨_, Except.check_bind_eq_ok_iff.mpr ⟨Except.require_eq_ok_iff.mpr h.1,
        Except.check_bind_eq_ok_iff.mpr ⟨Except.require_eq_ok_iff.mpr h.2.1,
          Except.check_bind_eq_ok_iff.mpr ⟨Except.require_eq_ok_iff.mpr h.2.2, rfl⟩⟩⟩⟩
  | registerBlueprint bp =>
      exact ⟨_, Except.check_bind_eq_ok_iff.mpr ⟨Except.require_eq_ok_iff.mpr h.1,
        Except.check_bind_eq_ok_iff.mpr ⟨Except.require_eq_ok_iff.mpr h.2.1,
          Except.check_bind_eq_ok_iff.mpr ⟨Except.require_eq_ok_iff.mpr h.2.2, rfl⟩⟩⟩⟩
  | instantiateAgent blueprintID agentID =>
      obtain ⟨bp, hbp⟩ := Option.isSome_iff_exists.mp (AList.lookup_isSome.mpr h.2)
      have hcall : s.instantiateAgent blueprintID agentID = .ok _ :=
        Except.check_bind_eq_ok_iff.mpr ⟨Except.require_eq_ok_iff.mpr h.1,
          Except.bind_eq_ok_iff.mpr ⟨bp, Except.ofOption_eq_ok_iff.mpr hbp, rfl⟩⟩
      exact ⟨_, congrArg (Except.map Prod.snd) hcall⟩
  | revoke id written =>
      exact ⟨_, Except.check_bind_eq_ok_iff.mpr ⟨Except.require_eq_ok_iff.mpr h.1,
        Except.check_bind_eq_ok_iff.mpr ⟨Except.require_eq_ok_iff.mpr h.2, rfl⟩⟩⟩
  | restore id written =>
      exact ⟨_, Except.check_bind_eq_ok_iff.mpr ⟨Except.require_eq_ok_iff.mpr h.1,
        Except.check_bind_eq_ok_iff.mpr ⟨Except.require_eq_ok_iff.mpr h.2, rfl⟩⟩⟩

/-- A call that fails was not to be accepted. -/
theorem not_accepted_of_call {e : AdminEvent} {err : AdminError} (h : s.call e = .error err) :
    ¬Accepted s e := by
  intro haccepted
  obtain ⟨s', hok⟩ := call_of_accepted haccepted
  rw [h] at hok
  cases hok

theorem effect_of_adminStep {e : AdminEvent} (h : adminStep s e = some s') :
    Effect s e s' ∨ ¬Accepted s e ∧ s' = s := by
  rw [adminStep] at h
  split at h
  · next hcall =>
      cases h
      exact .inl (effect_of_call hcall)
  · next hcall =>
      cases h
      exact .inr ⟨not_accepted_of_call hcall, rfl⟩

/-! ## Cascades -/

/-- The cascade of an id: the id, and the agents that hang off it. -/
theorem mem_cascade {s : Service} {id x : Bytes} :
    x ∈ s.cascade id ↔ x = id ∨ ∃ a, s.agents.lookup x = some a ∧ HangsOff a id := by
  rw [Service.cascade, List.mem_cons, (List.perm_insertionSort _ _).mem_iff, List.mem_map]
  constructor
  · rintro (rfl | ⟨⟨y, a⟩, hmem, rfl⟩)
    · exact .inl rfl
    · obtain ⟨hentry, hhangs⟩ := List.mem_filter.mp hmem
      exact .inr ⟨a, AList.mem_lookup_iff.mpr hentry, (of_decide_eq_true hhangs).2⟩
  · rintro (rfl | ⟨a, ha, hhangs⟩)
    · exact .inl rfl
    · by_cases hx : x = id
      · exact .inl hx
      · exact .inr ⟨⟨x, a⟩,
          List.mem_filter.mpr ⟨AList.mem_lookup_iff.mp ha, decide_eq_true ⟨hx, hhangs⟩⟩, rfl⟩

theorem lookup_agents_setDisabled {b : Bool} {id x : Bytes} {ids : List Bytes} :
    (s.setDisabled b id ids).agents.lookup x =
      if x ∈ ids then (s.agents.lookup x).map fun a => { a with disabled := b }
      else s.agents.lookup x :=
  lookup_foldl_modify (f := fun a : Agent => { a with disabled := b }) (fun _ => rfl) ids s.agents x

theorem lookup_principals_setDisabled {b : Bool} {id x : Bytes} {ids : List Bytes} :
    (s.setDisabled b id ids).principals.lookup x =
      if x = id then (s.principals.lookup x).map fun p => { p with disabled := b }
      else s.principals.lookup x :=
  lookup_modify _ _ _ _

end

end Sanad.Admin
