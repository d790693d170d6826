import Sanad.Admin

/-! # The console and the kill-switch

The flags of the records are what the console shows, the kill-switch is what the gateway enforces. The
service writes both, each by its own rule: the kill-switch gets the whole cascade, while of the
principals only the one with the id itself is marked, and a new record is never marked. Restoring acts
on the cascade too, whatever was revoked for another reason.
-/

namespace Sanad.Admin

section

variable {β : Type}

/-- Each record is flagged exactly when its id is in the set. -/
def FlagsAgree (flag : β → Bool) (m : AList fun _ : Bytes => β) (kill : Finset Bytes) : Prop :=
  ∀ id x, m.lookup id = some x → (flag x = true ↔ id ∈ kill)

/-- A record without the flag may only be written under an id that is not in the set. -/
theorem flagsAgree_insert_iff {flag : β → Bool} {m : AList fun _ : Bytes => β} {kill : Finset Bytes}
    {id : Bytes} {x : β} (h : FlagsAgree flag m kill) (hx : flag x = false) :
    FlagsAgree flag (m.insert id x) kill ↔ id ∉ kill := by
  constructor
  · intro hinsert hmem
    have hflag := (hinsert id x (AList.lookup_insert m)).mpr hmem
    rw [hx] at hflag
    cases hflag
  · intro hid y z hz
    by_cases hy : y = id
    · rw [hy, AList.lookup_insert] at hz
      cases hz
      rw [hx, hy]
      exact iff_of_false Bool.false_ne_true hid
    · rw [AList.lookup_insert_ne hy] at hz
      exact h y z hz

end

/-- Each record is disabled exactly when its id is on the kill-switch. -/
structure Agrees (s : Service) : Prop where
  principals : FlagsAgree Principal.disabled s.principals s.kill
  agents : FlagsAgree Agent.disabled s.agents s.kill

theorem agrees_new : Agrees .new := by
  constructor
  all_goals
    intro id x hx
    cases hx

/-- The HTTP API creates records that are not disabled. -/
def AdminEvent.createsEnabled : AdminEvent → Bool
  | .registerPrincipal p => !p.disabled
  | .registerAgent a => !a.disabled
  | _ => true

/-- The call keeps the console and the kill-switch in agreement: if it is accepted, no record is created
under an id that is on the kill-switch, and no cascade reaches a principal by the id of one of its
agents, unless that principal is in the state asked for already. -/
def KeepsAgreement (s : Service) (e : AdminEvent) : Prop :=
  Accepted s e →
    match e with
    | .registerPrincipal p => p.id ∉ s.kill
    | .registerAgent a => a.id ∉ s.kill
    | .registerBlueprint _ => True
    | .instantiateAgent _ agentID => agentID ∉ s.kill
    | .revoke id _ => ∀ x ∈ s.cascade id, x ≠ id → x ∈ s.principals → x ∈ s.kill
    | .restore id _ => ∀ x ∈ s.cascade id, x ≠ id → x ∈ s.principals → x ∉ s.kill

instance (s : Service) : DecidablePred (KeepsAgreement s)
  | .registerPrincipal p =>
    inferInstanceAs (Decidable (Accepted s (.registerPrincipal p) → p.id ∉ s.kill))
  | .registerAgent a => inferInstanceAs (Decidable (Accepted s (.registerAgent a) → a.id ∉ s.kill))
  | .registerBlueprint _ => .isTrue fun _ => trivial
  | .instantiateAgent blueprintID agentID =>
    inferInstanceAs
      (Decidable (Accepted s (.instantiateAgent blueprintID agentID) → agentID ∉ s.kill))
  | .revoke id written =>
    inferInstanceAs (Decidable (Accepted s (.revoke id written) →
      ∀ x ∈ s.cascade id, x ≠ id → x ∈ s.principals → x ∈ s.kill))
  | .restore id written =>
    inferInstanceAs (Decidable (Accepted s (.restore id written) →
      ∀ x ∈ s.cascade id, x ≠ id → x ∈ s.principals → x ∉ s.kill))

section

variable {s s' : Service}

/-- Writing a cascade brings the agents in line. Of the principals it brings only the one with the id in
line, and the others of the cascade must be in line already. -/
theorem agrees_setDisabled_iff {b : Bool} {id : Bytes} {ids : List Bytes} {kill : Finset Bytes}
    (hkill : ∀ x, x ∈ kill ↔ if x ∈ ids then b = true else x ∈ s.kill) (hid : id ∈ ids)
    (h : Agrees s) :
    Agrees ({ s with kill := kill }.setDisabled b id ids) ↔
      ∀ x ∈ ids, x ≠ id → x ∈ s.principals → (x ∈ s.kill ↔ b = true) := by
  constructor
  · intro hset x hx hne hprincipal
    obtain ⟨p, hp⟩ := Option.isSome_iff_exists.mp (AList.lookup_isSome.mpr hprincipal)
    have hp' : ({ s with kill := kill }.setDisabled b id ids).principals.lookup x = some p := by
      rw [lookup_principals_setDisabled, if_neg hne]
      exact hp
    rw [← h.principals x p hp, hset.principals x p hp']
    exact (hkill x).trans (by rw [if_pos hx])
  · intro hothers
    refine ⟨fun x p hp => ?_, fun x a ha => ?_⟩
    · -- A principal is written only under the id itself, an agent under every id of the cascade.
      refine Iff.trans ?_ (hkill x).symm
      rw [lookup_principals_setDisabled] at hp
      by_cases hxid : x = id
      · rw [if_pos hxid] at hp
        obtain ⟨q, -, rfl⟩ := Option.map_eq_some_iff.mp hp
        rw [if_pos (hxid ▸ hid)]
      · rw [if_neg hxid] at hp
        rw [h.principals x p hp]
        split_ifs with hx
        · exact hothers x hx hxid (AList.lookup_isSome.mp (by rw [hp]; rfl))
        · exact Iff.rfl
    · refine Iff.trans ?_ (hkill x).symm
      rw [lookup_agents_setDisabled] at ha
      split_ifs at ha ⊢ with hx
      · obtain ⟨c, -, rfl⟩ := Option.map_eq_some_iff.mp ha
        exact Iff.rfl
      · exact h.agents x a ha

/-- From a state in agreement, a call that creates enabled records leads to one exactly if it keeps
the agreement. -/
theorem agrees_step_iff {e : AdminEvent} (hstep : adminStep s e = some s')
    (he : e.createsEnabled = true) (h : Agrees s) : Agrees s' ↔ KeepsAgreement s e := by
  have hprincipals := h.principals
  have hagents := h.agents
  rcases effect_of_adminStep hstep with heffect | ⟨hrefused, rfl⟩
  case inr => exact iff_of_true h fun haccepted => absurd haccepted hrefused
  cases heffect with
  | registerPrincipal haccepted =>
      rw [KeepsAgreement, imp_iff_right haccepted,
        ← flagsAgree_insert_iff hprincipals (Bool.not_eq_true' _ |>.mp he)]
      exact ⟨fun h' => h'.principals, fun h' => ⟨h', hagents⟩⟩
  | registerAgent haccepted =>
      rw [KeepsAgreement, imp_iff_right haccepted,
        ← flagsAgree_insert_iff hagents (Bool.not_eq_true' _ |>.mp he)]
      exact ⟨fun h' => h'.agents, fun h' => ⟨hprincipals, h'⟩⟩
  | registerBlueprint haccepted => exact iff_of_true ⟨hprincipals, hagents⟩ fun _ => trivial
  | @instantiateAgent blueprintID agentID bp haccepted hbp =>
      rw [KeepsAgreement, imp_iff_right haccepted,
        ← flagsAgree_insert_iff (x := ⟨agentID, bp.principalID, blueprintID, false, 0⟩) hagents rfl]
      exact ⟨fun h' => h'.agents, fun h' => ⟨hprincipals, h'⟩⟩
  -- The two writes differ in the flag and in what the kill-switch gets or loses.
  | @revoke id haccepted =>
      rw [KeepsAgreement, imp_iff_right haccepted, agrees_setDisabled_iff _ _ h]
      · simp only [iff_true]
      · intro x
        by_cases hx : x ∈ s.cascade id <;> simp [hx]
      · exact mem_cascade.mpr (.inl rfl)
  | @restore id haccepted =>
      rw [KeepsAgreement, imp_iff_right haccepted, agrees_setDisabled_iff _ _ h]
      · simp only [Bool.false_eq_true, iff_false]
      · intro x
        by_cases hx : x ∈ s.cascade id <;> simp [hx]
      · exact mem_cascade.mpr (.inl rfl)

end

/-- Whatever the calls, the console and the kill-switch agree all along exactly if every call keeps the
agreement. -/
theorem always_agrees_iff (es : List AdminEvent) (hes : ∀ e ∈ es, e.createsEnabled = true) :
    Transition.Always adminStep Agrees .new es ↔
      Transition.Along adminStep (fun s e _ => KeepsAgreement s e) .new es :=
  Transition.always_iff_along (fun _ e _ he hstep h => agrees_step_iff hstep (hes e he) h) agrees_new

namespace ConsoleSample

/-- A principal that is not disabled. -/
def principal (id : Bytes) : Principal := ⟨id, [], .individual, false, 0⟩

/-- An agent of the principal that is not disabled. -/
def agent (id principalID : Bytes) : Agent := ⟨id, principalID, [], false, 0⟩

/-- A principal with an agent. -/
def setup : List AdminEvent :=
  [.registerPrincipal (principal (.ascii "p")), .registerAgent (agent (.ascii "a") (.ascii "p"))]

/-- The principal is revoked, and then registered once more. -/
def registeredAgain : List AdminEvent :=
  setup ++ [.revoke (.ascii "p") true, .registerPrincipal (principal (.ascii "p"))]

end ConsoleSample

open ConsoleSample

/-- Revoking a principal and restoring it, the second time successfully. -/
theorem always_agrees_iff_revoke_restore :
    Transition.Always adminStep Agrees .new
      (setup ++ [.revoke (.ascii "p") true, .restore (.ascii "p") false, .restore (.ascii "p") true]) :=
  (always_agrees_iff _ (by decide)).mpr (by decide)

/-- A principal is revoked and registered again. The console shows it enabled, and the kill-switch
denies it. -/
theorem registered_again_while_revoked :
    (∀ e ∈ registeredAgain, e.createsEnabled = true) ∧
      ∃ s p, Transition.run adminStep .new registeredAgain = some s ∧
        s.principals.lookup (.ascii "p") = some p ∧ p.disabled = false ∧ Bytes.ascii "p" ∈ s.kill :=
  ⟨by decide, _, _, rfl, rfl, rfl, by decide⟩

/-! ## Revoking and restoring -/

/-- The same ids are on the kill-switch, and the records have the same flags. -/
structure SameRevocations (s s' : Service) : Prop where
  kill : s'.kill = s.kill
  principals : ∀ x, (s'.principals.lookup x).map Principal.disabled =
    (s.principals.lookup x).map Principal.disabled
  agents : ∀ x, (s'.agents.lookup x).map Agent.disabled = (s.agents.lookup x).map Agent.disabled

/-- Nothing that revoking the id would revoke is revoked already. -/
structure NothingRevoked (s : Service) (id : Bytes) : Prop where
  kill : ∀ x ∈ s.cascade id, x ∉ s.kill
  principal : ∀ p ∈ s.principals.lookup id, p.disabled = false
  agents : ∀ x ∈ s.cascade id, ∀ a ∈ s.agents.lookup x, a.disabled = false

section

variable {s s₁ s₂ : Service} {b : Bool} {id x : Bytes} {ids : List Bytes}

/-- Who hangs off an id does not depend on the flags. -/
theorem mem_cascade_setDisabled {y : Bytes} :
    x ∈ (s.setDisabled b y ids).cascade id ↔ x ∈ s.cascade id := by
  rw [mem_cascade, mem_cascade, lookup_agents_setDisabled]
  split_ifs with hx
  · cases s.agents.lookup x <;> simp [HangsOff]
  · exact Iff.rfl

theorem map_agents_setDisabled {γ : Type} (id : Bytes) (f : Agent → γ) :
    ((s.setDisabled b id ids).agents.lookup x).map f =
      if x ∈ ids then (s.agents.lookup x).map fun a => f { a with disabled := b }
      else (s.agents.lookup x).map f := by
  rw [lookup_agents_setDisabled]
  split_ifs with hx
  · rw [Option.map_map]
    rfl
  · rfl

theorem map_principals_setDisabled {γ : Type} (ids : List Bytes) (f : Principal → γ) :
    ((s.setDisabled b id ids).principals.lookup x).map f =
      if x = id then (s.principals.lookup x).map fun p => f { p with disabled := b }
      else (s.principals.lookup x).map f := by
  rw [lookup_principals_setDisabled]
  split_ifs with hx
  · rw [Option.map_map]
    rfl
  · rfl

/-- A revocation that is restored leaves the whole cascade off the kill-switch and enabled. -/
theorem cleared_of_revoke_restore {w w' : Bool} (hrevoke : s.revoke id w = .ok s₁)
    (hrestore : s₁.restore id w' = .ok s₂) :
    (∀ x, x ∈ s₂.kill ↔ x ∈ s.kill ∧ x ∉ s.cascade id) ∧
      (∀ x, (s₂.principals.lookup x).map Principal.disabled =
        if x = id then (s.principals.lookup x).map fun _ => false
        else (s.principals.lookup x).map Principal.disabled) ∧
      ∀ x, (s₂.agents.lookup x).map Agent.disabled =
        if x ∈ s.cascade id then (s.agents.lookup x).map fun _ => false
        else (s.agents.lookup x).map Agent.disabled := by
  obtain ⟨-, -, rfl⟩ := revoke_eq_ok hrevoke
  obtain ⟨-, -, rfl⟩ := restore_eq_ok hrestore
  -- The cascade is the same both times, since it does not read the flags or the kill-switch.
  set s₁ := { s with kill := s.kill ∪ (s.cascade id).toFinset }.setDisabled true id (s.cascade id)
  have hcascade : ∀ x, x ∈ s₁.cascade id ↔ x ∈ s.cascade id := fun _ => mem_cascade_setDisabled
  refine ⟨fun x => ?_, fun x => ?_, fun x => ?_⟩
  · have hkill : x ∈ s₁.kill ↔ x ∈ s.kill ∨ x ∈ s.cascade id := by
      rw [← List.mem_toFinset (l := s.cascade id)]
      exact Finset.mem_union
    refine Finset.mem_sdiff.trans ?_
    rw [hkill, List.mem_toFinset, hcascade]
    tauto
  · rw [map_principals_setDisabled]
    split_ifs with hx
    · exact (map_principals_setDisabled (s.cascade id) _).trans (if_pos hx)
    · exact (map_principals_setDisabled (s.cascade id) _).trans (if_neg hx)
  · rw [map_agents_setDisabled]
    by_cases hx : x ∈ s.cascade id
    · rw [if_pos ((hcascade x).mpr hx), if_pos hx]
      exact (map_agents_setDisabled id _).trans (if_pos hx)
    · rw [if_neg fun hx' => hx ((hcascade x).mp hx'), if_neg hx]
      exact (map_agents_setDisabled id _).trans (if_neg hx)

end

/-- Revoking an id and restoring it brings back the kill-switch and the flags exactly if nothing of the
cascade, the id included, was revoked before. -/
theorem sameRevocations_iff (s s₁ s₂ : Service) (id : Bytes) (w w' : Bool)
    (hrevoke : s.revoke id w = .ok s₁) (hrestore : s₁.restore id w' = .ok s₂) :
    SameRevocations s s₂ ↔ NothingRevoked s id := by
  obtain ⟨hkill, hprincipals, hagents⟩ := cleared_of_revoke_restore hrevoke hrestore
  constructor
  · intro hsame
    refine ⟨fun x hx hmem => ?_, fun p hp => ?_, fun x hx a ha => ?_⟩
    · rw [← hsame.kill, hkill] at hmem
      exact hmem.2 hx
    · have hflag := hsame.principals id
      rw [hprincipals, if_pos rfl, Option.mem_def.mp hp] at hflag
      exact (Option.some.inj hflag).symm
    · have hflag := hsame.agents x
      rw [hagents, if_pos hx, Option.mem_def.mp ha] at hflag
      exact (Option.some.inj hflag).symm
  · intro hnothing
    refine ⟨Finset.ext fun x => ?_, fun x => ?_, fun x => ?_⟩
    · rw [hkill]
      exact and_iff_left_of_imp fun hmem hx => hnothing.kill x hx hmem
    · rw [hprincipals]
      split_ifs with hx
      · subst hx
        exact Option.map_congr fun p hp => (hnothing.principal p hp).symm
      · rfl
    · rw [hagents]
      split_ifs with hx
      · exact Option.map_congr fun a ha => (hnothing.agents x hx a ha).symm
      · rfl

/-- A principal with an agent, neither of them revoked. -/
theorem sameRevocations_iff_setup :
    ∃ s s₁ s₂, Transition.run adminStep .new setup = some s ∧ s.revoke (.ascii "p") true = .ok s₁ ∧
      s₁.restore (.ascii "p") true = .ok s₂ ∧ Bytes.ascii "a" ∈ s₁.kill ∧ SameRevocations s s₂ := by
  refine ⟨_, _, _, rfl, rfl, rfl, by decide, ?_⟩
  refine (sameRevocations_iff _ _ _ (.ascii "p") true true rfl rfl).mpr ?_
  exact ⟨by decide, by decide, by decide⟩

/-- An agent that had been revoked on its own is restored along with its principal. -/
theorem agent_restored_with_principal :
    ∃ s s₁ s₂, Transition.run adminStep .new (setup ++ [.revoke (.ascii "a") true]) = some s ∧
      Bytes.ascii "p" ∉ s.kill ∧ Bytes.ascii "a" ∈ s.kill ∧ s.revoke (.ascii "p") true = .ok s₁ ∧
      s₁.restore (.ascii "p") true = .ok s₂ ∧ Bytes.ascii "a" ∉ s₂.kill :=
  ⟨_, _, _, rfl, by decide, by decide, rfl, rfl, by decide⟩

end Sanad.Admin
