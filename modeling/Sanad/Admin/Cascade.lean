import Sanad.Admin

/-! # What a revocation takes with it

Revoking a principal or a blueprint takes its agents along. Which agents these are is settled at the
moment of the call. An agent that comes to hang off the id later is not on the kill-switch, and an agent
with two parents leaves it when one of them is restored.
-/

namespace Sanad.Admin

/-- The service, and for each id whose revocation stands, the ids that were restored by name since. -/
structure Traced where
  service : Service
  standing : Bytes → Option (List Bytes)

/-- The new service: no revocation stands. -/
def Traced.new : Traced := ⟨.new, fun _ => none⟩

/-- The revocations that stand after a successful call. A revocation ends when its id leaves the
kill-switch. -/
def Traced.track (t : Traced) : AdminEvent → Bytes → Option (List Bytes)
  | .revoke id _ => Function.update t.standing id (some [])
  | .restore id _ => fun x =>
    if x ∈ t.service.cascade id then none else (t.standing x).map (id :: ·)
  | _ => t.standing

def tracedStep (t : Traced) (e : AdminEvent) : Option Traced :=
  match t.service.call e with
  | .ok s' => some ⟨s', t.track e⟩
  | .error _ => some t

/-- What the agent hangs off. -/
def parents (a : Agent) : List Bytes := [a.principalID, a.blueprintID]

theorem mem_parents {a : Agent} {x : Bytes} : x ∈ parents a ↔ HangsOff a x := by
  simp [parents, HangsOff, eq_comm]

/-- Whatever revocation of its principal or its blueprint stands, the agent is on the kill-switch too, or
was restored by name since. -/
def Covered (t : Traced) (id : Bytes) (a : Agent) : Prop :=
  ∀ x ∈ parents a, ∀ restored ∈ t.standing x,
    id ∈ t.service.kill ∨ id ∈ restored

instance (t : Traced) (id : Bytes) (a : Agent) : Decidable (Covered t id a) :=
  inferInstanceAs (Decidable (∀ x ∈ parents a, ∀ restored ∈ t.standing x,
    id ∈ t.service.kill ∨ id ∈ restored))

/-- Every agent goes down with its principal and its blueprint. -/
def Closed (t : Traced) : Prop := ∀ id a, t.service.agents.lookup id = some a → Covered t id a

/-- The call keeps that: if it is accepted, no agent is put under a parent whose revocation stands unless
it is on the kill-switch itself or was restored by name since, and no agent is restored along with one of
its parents while the revocation of the other one stands, unless it was restored by name since. -/
def KeepsClosed (t : Traced) (e : AdminEvent) : Prop :=
  Accepted t.service e →
    match e with
    | .registerAgent a => Covered t a.id a
    | .instantiateAgent blueprintID agentID =>
      ∀ bp ∈ t.service.blueprints.lookup blueprintID,
        Covered t agentID ⟨agentID, bp.principalID, blueprintID, false, 0⟩
    | .restore id _ =>
      ∀ y ∈ t.service.cascade id, y ≠ id → ∀ a ∈ t.service.agents.lookup y,
        ∀ x ∈ parents a, x ∉ t.service.cascade id →
          ∀ restored ∈ t.standing x, y ∈ restored
    | _ => True

instance (t : Traced) : DecidablePred (KeepsClosed t)
  | .registerPrincipal _ => .isTrue fun _ => trivial
  | .registerAgent a =>
    inferInstanceAs (Decidable (Accepted t.service (.registerAgent a) → Covered t a.id a))
  | .registerBlueprint _ => .isTrue fun _ => trivial
  | .instantiateAgent blueprintID agentID =>
    inferInstanceAs (Decidable (Accepted t.service (.instantiateAgent blueprintID agentID) →
      ∀ bp ∈ t.service.blueprints.lookup blueprintID,
        Covered t agentID ⟨agentID, bp.principalID, blueprintID, false, 0⟩))
  | .revoke _ _ => .isTrue fun _ => trivial
  | .restore id written =>
    inferInstanceAs (Decidable (Accepted t.service (.restore id written) →
      ∀ y ∈ t.service.cascade id, y ≠ id → ∀ a ∈ t.service.agents.lookup y,
        ∀ x ∈ parents a, x ∉ t.service.cascade id → ∀ restored ∈ t.standing x, y ∈ restored))

section

variable {t t' : Traced}

theorem effect_of_tracedStep {e : AdminEvent} (h : tracedStep t e = some t') :
    (Effect t.service e t'.service ∧ t'.standing = t.track e) ∨ ¬Accepted t.service e ∧ t' = t := by
  rw [tracedStep] at h
  split at h
  · next hcall =>
      cases h
      exact .inl ⟨effect_of_call hcall, rfl⟩
  · next hcall =>
      cases h
      exact .inr ⟨not_accepted_of_call hcall, rfl⟩

theorem track_revoke_of_ne {id x : Bytes} (h : x ≠ id) :
    t.track (.revoke id true) x = t.standing x :=
  Function.update_of_ne h _ _

theorem mem_track_restore {id x : Bytes} {restored : List Bytes} :
    restored ∈ t.track (.restore id true) x ↔
      x ∉ t.service.cascade id ∧ ∃ before ∈ t.standing x, id :: before = restored := by
  rw [Traced.track]
  by_cases hx : x ∈ t.service.cascade id <;> simp [hx]

/-- An id whose revocation stands is on the kill-switch. -/
theorem mem_kill_of_standing {es : List AdminEvent} (hrun : Transition.run tracedStep .new es = some t) :
    ∀ x, ∀ restored ∈ t.standing x, x ∈ t.service.kill := by
  refine Transition.invariant (I := fun t => ∀ x, ∀ restored ∈ t.standing x, x ∈ t.service.kill)
    ?_ hrun fun x restored hx => nomatch hx
  intro t e t' hstep h x restored hx
  rcases effect_of_tracedStep hstep with ⟨heffect, hstanding⟩ | ⟨-, rfl⟩
  case inr => exact h x restored hx
  rw [hstanding] at hx
  obtain ⟨s', standing'⟩ := t'
  cases heffect with
  | @revoke id haccepted =>
      refine Finset.mem_union.mpr ?_
      by_cases hid : x = id
      · exact .inr (List.mem_toFinset.mpr (mem_cascade.mpr (.inl hid)))
      · rw [track_revoke_of_ne hid] at hx
        exact .inl (h x restored hx)
  | @restore id haccepted =>
      obtain ⟨hcascade, before, hbefore, -⟩ := mem_track_restore.mp hx
      exact Finset.mem_sdiff.mpr
        ⟨h x before hbefore, fun hmem => hcascade (List.mem_toFinset.mp hmem)⟩
  | registerPrincipal => exact h x restored hx
  | registerAgent => exact h x restored hx
  | registerBlueprint => exact h x restored hx
  | instantiateAgent => exact h x restored hx

/-- An agent that comes to hang off its parents has to be covered. -/
theorem closed_insert_iff {id : Bytes} {a : Agent} (h : Closed t) :
    Closed ⟨{ t.service with agents := t.service.agents.insert id a }, t.standing⟩ ↔
      Covered t id a := by
  constructor
  · exact fun hclosed => hclosed id a (AList.lookup_insert _)
  · intro hcovered y b hb
    by_cases hy : y = id
    · rw [hy, AList.lookup_insert] at hb
      cases hb
      exact hy ▸ hcovered
    · rw [AList.lookup_insert_ne hy] at hb
      exact h y b hb

/-- An agent of the cascade that is written has the same parents as before. -/
theorem exists_of_lookup_setDisabled {s : Service} {b : Bool} {id y : Bytes} {ids : List Bytes}
    {a : Agent} (h : (s.setDisabled b id ids).agents.lookup y = some a) :
    ∃ a₀, s.agents.lookup y = some a₀ ∧ parents a₀ = parents a := by
  rw [lookup_agents_setDisabled] at h
  split_ifs at h with hy
  · obtain ⟨a₀, ha₀, rfl⟩ := Option.map_eq_some_iff.mp h
    exact ⟨a₀, ha₀, rfl⟩
  · exact ⟨a, h, rfl⟩

/-- A revocation takes everything along that hangs off the id. -/
theorem closed_revoke {id : Bytes} (h : Closed t) :
    Closed ⟨{ t.service with kill := t.service.kill ∪ (t.service.cascade id).toFinset }.setDisabled
      true id (t.service.cascade id), t.track (.revoke id true)⟩ := by
  intro y a ha x hx restored hrestored
  obtain ⟨a₀, ha₀, hparents⟩ := exists_of_lookup_setDisabled ha
  rw [← hparents] at hx
  by_cases hxid : x = id
  · -- What hangs off the id now is in its cascade.
    have hmem : y ∈ t.service.cascade id := mem_cascade.mpr (.inr ⟨a₀, ha₀, hxid ▸ mem_parents.mp hx⟩)
    exact .inl (Finset.mem_union.mpr (.inr (List.mem_toFinset.mpr hmem)))
  · have hbefore : restored ∈ t.standing x := track_revoke_of_ne (t := t) hxid ▸ hrestored
    exact (h y a₀ ha₀ x hx restored hbefore).imp_left fun hkill => Finset.mem_union.mpr (.inl hkill)

/-- Restoring an id takes off the kill-switch what hangs off it, which must not hang off anything else
whose revocation stands. -/
theorem closed_restore_iff {id : Bytes} (h : Closed t) :
    Closed ⟨{ t.service with kill := t.service.kill \ (t.service.cascade id).toFinset }.setDisabled
        false id (t.service.cascade id), t.track (.restore id true)⟩ ↔
      ∀ y ∈ t.service.cascade id, y ≠ id → ∀ a ∈ t.service.agents.lookup y,
        ∀ x ∈ parents a, x ∉ t.service.cascade id → ∀ restored ∈ t.standing x, y ∈ restored := by
  constructor
  · -- An agent of the cascade is off the kill-switch, so only a restoration by name covers it.
    intro hclosed y hy hne a ha x hx hxid restored hrestored
    have hcovered := hclosed y { a with disabled := false } ?_ x hx (id :: restored)
      (mem_track_restore.mpr ⟨hxid, restored, hrestored, rfl⟩)
    · rcases hcovered with hkill | hmem
      · exact absurd (List.mem_toFinset.mpr hy) (Finset.mem_sdiff.mp hkill).2
      · exact (List.mem_cons.mp hmem).resolve_left hne
    · refine lookup_agents_setDisabled.trans ?_
      rw [if_pos hy]
      exact congrArg _ ha
  · intro hothers y a ha x hx restored hrestored
    obtain ⟨a₀, ha₀, hparents⟩ := exists_of_lookup_setDisabled ha
    rw [← hparents] at hx
    obtain ⟨hxid, before, hbefore, rfl⟩ := mem_track_restore.mp hrestored
    by_cases hy : y ∈ t.service.cascade id
    · by_cases hne : y = id
      · exact .inr (hne ▸ List.mem_cons_self)
      · exact .inr (List.mem_cons_of_mem _ (hothers y hy hne a₀ ha₀ x hx hxid before hbefore))
    · refine (h y a₀ ha₀ x hx before hbefore).imp (fun hkill => ?_) (List.mem_cons_of_mem _)
      exact Finset.mem_sdiff.mpr ⟨hkill, fun hmem => hy (List.mem_toFinset.mp hmem)⟩

/-- From a closed state, a call leads to one exactly if it keeps that. -/
theorem closed_step_iff {e : AdminEvent} (hstep : tracedStep t e = some t') (h : Closed t) :
    Closed t' ↔ KeepsClosed t e := by
  rcases effect_of_tracedStep hstep with ⟨heffect, hstanding⟩ | ⟨hrefused, rfl⟩
  case inr => exact iff_of_true h fun haccepted => absurd haccepted hrefused
  obtain ⟨s', standing'⟩ := t'
  subst hstanding
  cases heffect with
  | registerPrincipal => exact iff_of_true h fun _ => trivial
  | registerBlueprint => exact iff_of_true h fun _ => trivial
  | revoke => exact iff_of_true (closed_revoke h) fun _ => trivial
  | registerAgent haccepted =>
      rw [KeepsClosed, imp_iff_right haccepted]
      exact closed_insert_iff h
  | instantiateAgent haccepted hbp =>
      rw [KeepsClosed, imp_iff_right haccepted, hbp]
      refine (closed_insert_iff h).trans ?_
      exact ⟨fun hcovered bp hmem => Option.some.inj hmem ▸ hcovered, fun hall => hall _ rfl⟩
  | restore haccepted =>
      rw [KeepsClosed, imp_iff_right haccepted]
      exact closed_restore_iff h

end

/-- Whatever the calls, every agent goes down with its principal and its blueprint all along exactly if
every call keeps that. -/
theorem always_closed_iff (es : List AdminEvent) :
    Transition.Always tracedStep Closed .new es ↔
      Transition.Along tracedStep (fun t e _ => KeepsClosed t e) .new es :=
  Transition.always_iff_along (fun _ _ _ _ hstep h => closed_step_iff hstep h)
    fun _ _ ha => nomatch ha

namespace CascadeSample

/-- A principal with a blueprint. -/
def setup : List AdminEvent :=
  [.registerPrincipal ⟨.ascii "p", [], .individual, false, 0⟩,
    .registerBlueprint ⟨.ascii "b", .ascii "p", [], [], []⟩]

/-- An instance of the blueprint. -/
def instantiate : AdminEvent := .instantiateAgent (.ascii "b") (.ascii "a")

/-- The blueprint is revoked first and instantiated then. -/
def late : List AdminEvent := setup ++ [.revoke (.ascii "b") true, instantiate]

/-- The principal and the blueprint are revoked, and the principal is restored. -/
def overlapping : List AdminEvent :=
  setup ++ [instantiate, .revoke (.ascii "p") true, .revoke (.ascii "b") true,
    .restore (.ascii "p") true]

/-- The blueprint is revoked, its instance restored by name, and then the blueprint. -/
def byName : List AdminEvent :=
  setup ++ [instantiate, .revoke (.ascii "b") true, .restore (.ascii "a") true,
    .restore (.ascii "b") true]

/-- The revocation of the blueprint stands, and its instance is neither on the kill-switch nor restored by
name since. -/
def Escapes (es : List AdminEvent) : Prop :=
  ∃ t a restored, Transition.run tracedStep .new es = some t ∧
    t.service.agents.lookup (.ascii "a") = some a ∧ a.blueprintID = .ascii "b" ∧
    Bytes.ascii "b" ∈ t.service.kill ∧ t.standing (.ascii "b") = some restored ∧
    Bytes.ascii "a" ∉ restored ∧ Bytes.ascii "a" ∉ t.service.kill

end CascadeSample

open CascadeSample

theorem always_closed_iff_byName : Transition.Always tracedStep Closed .new byName :=
  (always_closed_iff byName).mpr (by decide)

/-- The instance of a revoked blueprint is not on the kill-switch: it was created later, or its principal
was restored. -/
theorem instance_of_revoked_blueprint_escapes : Escapes late ∧ Escapes overlapping :=
  ⟨⟨_, _, _, rfl, rfl, rfl, by decide, rfl, by decide, by decide⟩,
    ⟨_, _, _, rfl, rfl, rfl, by decide, rfl, by decide, by decide⟩⟩

end Sanad.Admin
