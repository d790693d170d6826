import Mathlib.Data.List.Forall2
import Sanad.Gateway.Serve

/-! # Complete mediation

What holds of the gateway in every interleaving of requests. Nothing is sent to an upstream but for a
request that was admitted for it, has passed every stage and has a passport, and whose decision is on
the log (`complete_mediation`). The log verifies, and has exactly one entry for each request that was
decided (`accountability`), so that a passport leads to the one request it was minted for
(`Mediated.investigate`).
-/

namespace Sanad.Gateway

open Transition

variable {ε σ : Type}

/-! ## Stages with interference -/

/-- The stages have passed the request on, one after the other, each in a world of its own. -/
inductive Passed : List (Stage ε σ) → Request → Request → Prop where
  | nil {req : Request} : Passed [] req req
  | cons {stage : Stage ε σ} {rest : List (Stage ε σ)} {w w' : σ} {req req₁ req₂ : Request} :
      stage.handle (w, req) = .ok () (w', req₁) → Passed rest req₁ req₂ →
      Passed (stage :: rest) req req₂

theorem passed_cons_iff {stage : Stage ε σ} {rest : List (Stage ε σ)} {req req₂ : Request} :
    Passed (stage :: rest) req req₂ ↔
      ∃ w w' req₁, stage.handle (w, req) = .ok () (w', req₁) ∧ Passed rest req₁ req₂ := by
  constructor
  · rintro (_ | ⟨hstage, hrest⟩)
    exact ⟨_, _, _, hstage, hrest⟩
  · rintro ⟨w, w', req₁, hstage, hrest⟩
    exact .cons hstage hrest

theorem passed_nil_iff {req req' : Request} : Passed ([] : List (Stage ε σ)) req req' ↔ req = req' := by
  constructor
  · rintro ⟨⟩
    rfl
  · rintro rfl
    exact .nil

theorem passed_append_iff {stages rest : List (Stage ε σ)} {req req₂ : Request} :
    Passed (stages ++ rest) req req₂ ↔ ∃ req₁, Passed stages req req₁ ∧ Passed rest req₁ req₂ := by
  induction stages generalizing req with
  | nil => simp [passed_nil_iff]
  | cons stage stages ih =>
      simp only [List.cons_append, passed_cons_iff, ih]
      exact ⟨fun ⟨w, w', req₁, hstage, req₂, hstages, hrest⟩ =>
          ⟨req₂, ⟨w, w', req₁, hstage, hstages⟩, hrest⟩,
        fun ⟨req₂, ⟨w, w', req₁, hstage, hstages⟩, hrest⟩ =>
          ⟨w, w', req₁, hstage, req₂, hstages, hrest⟩⟩

/-- A run of the pipeline that nothing interferes with. -/
theorem passed_of_run {stages : List (Stage ε σ)} {w w' : σ} {req req' : Request}
    (h : Gateway.run stages (w, req) = .ok () (w', req')) : Passed stages req req' := by
  induction stages generalizing w req with
  | nil =>
      rw [run_nil_eq_ok_iff, Prod.mk.injEq] at h
      exact passed_nil_iff.mpr h.2
  | cons stage stages ih =>
      obtain ⟨⟨w₁, req₁⟩, hstage, hrest⟩ := run_cons_eq_ok_iff.mp h
      exact .cons hstage (ih hrest)

/-! ## What a step can do -/

/-- The request is for a server that has been registered, and is ready to be decided. -/
def Admitted (g : Config ε σ) (registry : Registry) (req : Request) (fwd : Forwarding) : Prop :=
  ∃ id, parseServerPath fwd.inbound.url.path = some (id, fwd.path) ∧
    (id, fwd.upstream) ∈ registry.servers ∧
    g.receive id fwd.path fwd.upstream fwd.inbound = .decide req fwd

theorem Admitted.mono {g : Config ε σ} {registry registry' : Registry} {req : Request}
    {fwd : Forwarding} (h : Admitted g registry req fwd)
    (hsub : registry.servers ⊆ registry'.servers) : Admitted g registry' req fwd := by
  obtain ⟨id, hpath, hmem, hreceive⟩ := h
  exact ⟨id, hpath, hsub hmem, hreceive⟩

theorem fwd_of_receive {g : Config ε σ} {id path : Bytes} {upstream : Upstream} {r : Inbound}
    {req : Request} {fwd : Forwarding} (h : g.receive id path upstream r = .decide req fwd) :
    fwd.inbound = r ∧ fwd.upstream = upstream ∧ fwd.path = path := by
  rw [Config.receive] at h
  split at h
  · split at h
    · cases h
    · dsimp only at h
      split at h
      · cases h
      · cases h
        exact ⟨rfl, rfl, rfl⟩
  · cases h
    exact ⟨rfl, rfl, rfl⟩

theorem admitted_of_route {g : Config ε σ} {registry : Registry} {w : σ} {r : Inbound} {req : Request}
    {fwd : Forwarding} (h : g.route registry w r = .decide req fwd) :
    Admitted g registry req fwd ∧ fwd.inbound = r := by
  rw [Config.route] at h
  split_ifs at h
  split at h
  · cases h
  · next id path hpath =>
      split at h
      · cases h
      · next upstream hlookup =>
          obtain ⟨rfl, rfl, rfl⟩ := fwd_of_receive h
          obtain ⟨before, after, hservers, -⟩ := List.lookup_eq_some_iff.mp hlookup
          exact ⟨⟨id, hpath, by rw [hservers]; exact List.mem_append_right _ List.mem_cons_self, h⟩, rfl⟩

/-- A request that is to be decided: its body is none, or is the body that was read, with the calls that
were found in it. -/
theorem of_receive {g : Config ε σ} {id path : Bytes} {upstream : Upstream} {r : Inbound}
    {req : Request} {fwd : Forwarding} (h : g.receive id path upstream r = .decide req fwd) :
    req.server = id ∧ req.targetID = id ∧ fwd.body = r.body ∧
      ∃ http, req.http = some http ∧ http.header = r.http.header ∧
        (req.body = none ∨ req.body = some r.body.data ∧ r.body.err = none ∧
          Mcprpc.parse r.body.data = .ok req.calls) := by
  rw [Config.receive] at h
  split at h
  · split at h
    · cases h
    · next data http body hbuffer =>
        obtain ⟨hheader, herr⟩ : http.header = r.http.header ∧ r.body.err = none := by
          rw [Mcprpc.bufferBody] at hbuffer
          split at hbuffer
          · cases hbuffer
          · split at hbuffer
            · cases hbuffer
            · next herr =>
                cases hbuffer
                exact ⟨rfl, herr⟩
        obtain ⟨rfl, rfl⟩ := Mcprpc.bufferBody_eq_ok hbuffer
        dsimp only at h
        split at h
        · cases h
        · next calls hparse =>
            cases h
            exact ⟨rfl, rfl, rfl, http, rfl, hheader, .inr ⟨rfl, herr, hparse⟩⟩
  · cases h
    exact ⟨rfl, rfl, rfl, r.http, rfl, rfl, .inl rfl⟩

/-- How the request `k` gets on before its decision is recorded, with an event. -/
inductive Advance (g : Config ε σ) (registry : Registry) (k : ℕ) :
    Event σ → Phase ε σ → Phase ε σ → Prop where
  | unrouted {e : Event σ} {a : Answer} : Advance g registry k e .idle (.unrouted a)
  | refused {e : Event σ} {req : Request} {reason : Bytes} {a : Answer} :
      Advance g registry k e .idle (.recording ⟨req, .deny reason a⟩)
  | admitted {req : Request} {fwd : Forwarding} : Admitted g registry req fwd →
      Advance g registry k (.arrive k fwd.inbound) .idle (.deciding req fwd g.stages)
  | passed {e : Event σ} {stage : Stage ε σ} {rest : List (Stage ε σ)} {w w' : σ} {req req' : Request}
      {fwd : Forwarding} : stage.handle (w, req) = .ok () (w', req') →
      Advance g registry k e (.deciding req fwd (stage :: rest)) (.deciding req' fwd rest)
  | failed {e : Event σ} {rest : List (Stage ε σ)} {req req' : Request} {fwd : Forwarding}
      {reason : Bytes} {a : Answer} :
      Advance g registry k e (.deciding req fwd rest) (.recording ⟨req', .deny reason a⟩)
  | allowed {e : Event σ} {req : Request} {fwd : Forwarding} {P : Passport} : req.passport = some P →
      Advance g registry k e (.deciding req fwd []) (.recording ⟨req, .allow fwd⟩)

/-- What a step can do: change the world, register a server, move a request towards its decision,
record one, or forward a request that is allowed. -/
theorem of_step {H : Hash 32} {g : Config ε σ} {s s' : State ε σ} {e : Event σ}
    (h : step H g s e = some s') :
    (∃ w registry, s.registry.servers ⊆ registry.servers ∧
      s' = { s with world := w, registry := registry }) ∨
    (∃ k w p, Advance g s.registry k e (s.phase k) p ∧ s' = { s with world := w }.goto k p) ∨
    (∃ k now v, s.phase k = .recording v ∧
      s' = { s with log := (s.log.commit H (g.entry now v)).2 }.goto k (.recorded v)) ∨
    (∃ k req fwd, s.phase k = .recorded ⟨req, .allow fwd⟩ ∧
      s' = { s with sent := s.sent ++ ((fwd.outbound req).map fun out => (k, out)).toList }.goto k
        (.proxied req fwd)) := by
  cases e with
  | arrive k r =>
      rw [step] at h
      split at h
      · next hidle =>
          refine .inr (.inl ⟨k, s.world, ?_⟩)
          split at h <;> obtain rfl := Option.some.inj h
          · exact ⟨_, by rw [hidle]; exact .unrouted, rfl⟩
          · exact ⟨_, by rw [hidle]; exact .refused, rfl⟩
          · next hroute =>
              obtain ⟨hadmitted, rfl⟩ := admitted_of_route hroute
              exact ⟨_, by rw [hidle]; exact .admitted hadmitted, rfl⟩
      · cases h
  | stage k =>
      rw [step] at h
      split at h
      · next req fwd hphase =>
          obtain rfl := Option.some.inj h
          refine .inr (.inl ⟨k, s.world, _, ?_, rfl⟩)
          rw [hphase, concluded]
          split
          · exact .failed
          · next hpassport => exact .allowed hpassport
      · next req fwd stage rest hphase =>
          split at h <;> obtain rfl := Option.some.inj h
          · next u w req' hstage =>
              exact .inr (.inl ⟨k, w, _, by rw [hphase]; exact .passed hstage, rfl⟩)
          · next e w req' hstage => exact .inr (.inl ⟨k, w, _, by rw [hphase]; exact .failed, rfl⟩)
      · cases h
  | record k now =>
      rw [step] at h
      split at h
      · next v hphase => exact .inr (.inr (.inl ⟨k, now, v, hphase, (Option.some.inj h).symm⟩))
      · cases h
  | forward k =>
      rw [step] at h
      split at h
      · next req fwd hphase => exact .inr (.inr (.inr ⟨k, req, fwd, hphase, (Option.some.inj h).symm⟩))
      · cases h
  | world w => exact .inl ⟨w, s.registry, List.Subset.refl _, (Option.some.inj h).symm⟩
  | register id upstream =>
      rw [step] at h
      split at h <;> obtain rfl := Option.some.inj h
      · next registry hregister =>
          refine .inl ⟨s.world, registry, ?_, rfl⟩
          simp only [Registry.register, Except.bind_eq_ok_iff] at hregister
          obtain ⟨-, -, upstream, -, hregistry⟩ := hregister
          rw [← Except.ok.inj hregistry]
          exact List.subset_cons_self _ _
      · exact .inl ⟨s.world, s.registry, List.Subset.refl _, rfl⟩

/-! ## Mediation -/

/-- A request that is allowed was admitted, has passed every stage and has a passport. -/
def Verdict.Sound (g : Config ε σ) (registry : Registry) (v : Verdict) : Prop :=
  ∀ fwd, v.outcome = .allow fwd → ∃ req₀ P, Admitted g registry req₀ fwd ∧
    Passed g.stages req₀ v.req ∧ v.req.passport = some P

/-- What is known of a request in each phase. -/
def Phase.Sound (g : Config ε σ) (registry : Registry) : Phase ε σ → Prop
  | .idle => True
  | .unrouted _ => True
  | .deciding req fwd rest => ∃ req₀ done, Admitted g registry req₀ fwd ∧ g.stages = done ++ rest ∧
      Passed done req₀ req
  | .recording v => v.Sound g registry
  | .recorded v => v.Sound g registry
  | .proxied req fwd => Verdict.Sound g registry ⟨req, .allow fwd⟩

theorem Verdict.Sound.mono {g : Config ε σ} {registry registry' : Registry} {v : Verdict}
    (h : v.Sound g registry) (hsub : registry.servers ⊆ registry'.servers) : v.Sound g registry' := by
  intro fwd hallow
  obtain ⟨req₀, P, hadmitted, hpassed⟩ := h fwd hallow
  exact ⟨req₀, P, hadmitted.mono hsub, hpassed⟩

theorem Phase.Sound.mono {g : Config ε σ} {registry registry' : Registry} {p : Phase ε σ}
    (h : p.Sound g registry) (hsub : registry.servers ⊆ registry'.servers) : p.Sound g registry' := by
  cases p with
  | idle => trivial
  | unrouted a => trivial
  | deciding req fwd rest =>
      obtain ⟨req₀, done, hadmitted, hstages⟩ := h
      exact ⟨req₀, done, hadmitted.mono hsub, hstages⟩
  | recording v => exact Verdict.Sound.mono h hsub
  | recorded v => exact Verdict.Sound.mono h hsub
  | proxied req fwd => exact Verdict.Sound.mono h hsub

theorem Advance.sound {g : Config ε σ} {registry : Registry} {k : ℕ} {e : Event σ} {p p' : Phase ε σ}
    (h : Advance g registry k e p p') (hp : p.Sound g registry) : p'.Sound g registry := by
  cases h with
  | unrouted => trivial
  | refused =>
      rintro fwd ⟨⟩
  | admitted hadmitted => exact ⟨_, [], hadmitted, rfl, .nil⟩
  | passed hstage =>
      obtain ⟨req₀, done, hadmitted, hstages, hdone⟩ := hp
      refine ⟨req₀, done ++ [_], hadmitted, by rw [hstages, List.append_assoc]; rfl, ?_⟩
      exact passed_append_iff.mpr ⟨_, hdone, .cons hstage .nil⟩
  | failed =>
      rintro fwd ⟨⟩
  | allowed hpassport =>
      rintro fwd ⟨⟩
      obtain ⟨req₀, done, hadmitted, hstages, hdone⟩ := hp
      rw [List.append_nil] at hstages
      exact ⟨req₀, _, hadmitted, by rwa [hstages], hpassport⟩

/-- The decision of a request that is on the log. -/
def Phase.onLog : Phase ε σ → Option Verdict
  | .recorded v => some v
  | .proxied req fwd => some ⟨req, .allow fwd⟩
  | _ => none

/-- What is to be forwarded for a request, unless it is denied. -/
def Phase.forwarding : Phase ε σ → Option Forwarding
  | .deciding _ fwd _ => some fwd
  | .recording ⟨_, .allow fwd⟩ => some fwd
  | .recorded ⟨_, .allow fwd⟩ => some fwd
  | .proxied _ fwd => some fwd
  | _ => none

/-- The entry records the decision. -/
def Records (g : Config ε σ) (v : Verdict) (e : Audit.Entry) : Prop :=
  ∃ now, e.recorded = (g.entry now v).recorded

/-- What holds in every state: the phases, what has been sent, and the log, whose entries go with the
requests `ks`. -/
structure Mediated (H : Hash 32) (g : Config ε σ) (s : State ε σ) : Prop where
  sound : ∀ k, (s.phase k).Sound g s.registry
  sent : ∀ k out, (k, out) ∈ s.sent → ∃ req fwd, s.phase k = .proxied req fwd ∧
    fwd.outbound req = some out
  once : (s.sent.map Prod.fst).Nodup
  intact : s.log.Intact H
  accounts : ∃ ks : List ℕ, ks.Nodup ∧ (∀ k, k ∈ ks ↔ (s.phase k).onLog.isSome = true) ∧
    List.Forall₂ (fun k e => ∃ v, (s.phase k).onLog = some v ∧ Records g v e) ks s.log.entries

theorem mediated_new (H : Hash 32) (g : Config ε σ) (w : σ) : Mediated H g (State.new w) where
  sound _ := trivial
  sent _ _ h := absurd h List.not_mem_nil
  once := List.nodup_nil
  intact := Audit.HashChainLog.intact_new
  accounts := ⟨[], List.nodup_nil, fun _ => by simp [State.new, Phase.onLog], .nil⟩

theorem phase_goto (s : State ε σ) (k k' : ℕ) (p : Phase ε σ) :
    (s.goto k p).phase k' = if k' = k then p else s.phase k' :=
  Function.update_apply s.phase k p k'

/-- Before a decision is recorded, it is not on the log. -/
theorem Advance.onLog {g : Config ε σ} {registry : Registry} {k : ℕ} {e : Event σ} {p p' : Phase ε σ}
    (h : Advance g registry k e p p') : p.onLog = none ∧ p'.onLog = none := by
  cases h <;> exact ⟨rfl, rfl⟩

theorem onLog_goto {s : State ε σ} {k : ℕ} {p : Phase ε σ} (h : p.onLog = (s.phase k).onLog) (k' : ℕ) :
    ((s.goto k p).phase k').onLog = (s.phase k').onLog := by
  rw [phase_goto]
  split
  · next hk => rw [h, hk]
  · rfl

section

variable {H : Hash 32} {g : Config ε σ} {s s' : State ε σ} {k : ℕ}

/-- A request that is not on the log yet gets on. -/
theorem Mediated.advance (h : Mediated H g s) {w : σ} {e : Event σ} {p : Phase ε σ}
    (hadvance : Advance g s.registry k e (s.phase k) p) : Mediated H g ({ s with world := w }.goto k p) where
  sound k' := by
    rw [phase_goto]
    split
    · exact hadvance.sound (h.sound k)
    · exact h.sound k'
  sent k' out hsent := by
    obtain ⟨req, fwd, hphase, hout⟩ := h.sent k' out hsent
    refine ⟨req, fwd, ?_, hout⟩
    rw [phase_goto, if_neg]
    · exact hphase
    · rintro rfl
      have hnone := hadvance.onLog.1
      rw [hphase] at hnone
      cases hnone
  once := h.once
  intact := h.intact
  accounts := by
    obtain ⟨ks, hnodup, hmem, hentries⟩ := h.accounts
    have hsame : ∀ k', (({ s with world := w } : State ε σ).goto k p |>.phase k').onLog =
        (s.phase k').onLog :=
      onLog_goto (s := { s with world := w }) (hadvance.onLog.2.trans hadvance.onLog.1.symm)
    exact ⟨ks, hnodup, fun k' => by rw [hsame, hmem], hentries.imp fun k' e hk' => by rwa [hsame]⟩

/-- A decision is recorded: its entry is the last one. -/
theorem Mediated.record (h : Mediated H g s) {now : ℤ} {v : Verdict}
    (hphase : s.phase k = .recording v) :
    Mediated H g ({ s with log := (s.log.commit H (g.entry now v)).2 }.goto k (.recorded v)) where
  sound k' := by
    rw [phase_goto]
    split
    · have hv := h.sound k
      rwa [hphase] at hv
    · exact h.sound k'
  sent k' out hsent := by
    obtain ⟨req, fwd, hphase', hout⟩ := h.sent k' out hsent
    refine ⟨req, fwd, ?_, hout⟩
    rw [phase_goto, if_neg]
    · exact hphase'
    · rintro rfl
      rw [hphase] at hphase'
      cases hphase'
  once := h.once
  intact := h.intact.commit _
  accounts := by
    obtain ⟨ks, hnodup, hmem, hentries⟩ := h.accounts
    have hk : k ∉ ks := by
      rw [hmem, hphase]
      simp [Phase.onLog]
    refine ⟨ks ++ [k], ?_, fun k' => ?_, ?_⟩
    · exact List.nodup_append.mpr ⟨hnodup, List.nodup_singleton k, by
        rintro a ha b hb rfl
        exact hk (List.mem_singleton.mp hb ▸ ha)⟩
    · rw [List.mem_append, List.mem_singleton, phase_goto]
      split
      · next hk' => simp [hk', Phase.onLog]
      · next hk' => simp only [hk', or_false]; exact hmem k'
    · refine List.rel_append (R := fun k' e => ∃ v', _ ∧ Records g v' e) ?_ ?_
      · refine (List.forall₂_iff_zip.mpr ⟨hentries.length_eq, fun {k'} {e} hzip => ?_⟩)
        have hrecords := (List.forall₂_iff_zip.mp hentries).2 hzip
        have hne : k' ≠ k := by
          rintro rfl
          exact hk (List.of_mem_zip hzip).1
        rwa [phase_goto, if_neg hne]
      · refine .cons ⟨v, ?_, now, rfl⟩ .nil
        rw [phase_goto, if_pos rfl]
        rfl

/-- An allowed request goes out. -/
theorem Mediated.forward (h : Mediated H g s) {req : Request} {fwd : Forwarding}
    (hphase : s.phase k = .recorded ⟨req, .allow fwd⟩) :
    Mediated H g ({ s with sent := s.sent ++
      ((fwd.outbound req).map fun out => (k, out)).toList }.goto k (.proxied req fwd)) where
  sound k' := by
    rw [phase_goto]
    split
    · have hv := h.sound k
      rwa [hphase] at hv
    · exact h.sound k'
  sent k' out hsent := by
    rcases List.mem_append.mp hsent with hsent | hsent
    · obtain ⟨req', fwd', hphase', hout⟩ := h.sent k' out hsent
      refine ⟨req', fwd', ?_, hout⟩
      rw [phase_goto, if_neg]
      · exact hphase'
      · rintro rfl
        rw [hphase] at hphase'
        cases hphase'
    · obtain ⟨out', hout, heq⟩ := Option.map_eq_some_iff.mp (Option.mem_toList.mp hsent)
      obtain ⟨rfl, rfl⟩ := Prod.mk.inj heq
      exact ⟨req, fwd, by rw [phase_goto, if_pos rfl], hout⟩
  once := by
    have hnew : ∀ out, (k, out) ∉ s.sent := by
      intro out hsent
      obtain ⟨_, _, hphase', -⟩ := h.sent k out hsent
      rw [hphase] at hphase'
      cases hphase'
    show ((s.sent ++ _).map Prod.fst).Nodup
    rw [List.map_append, List.nodup_append]
    refine ⟨h.once, ?_, ?_⟩
    · cases fwd.outbound req <;> simp
    · intro k' hk' k'' hk''
      obtain ⟨⟨j, out⟩, hsent, rfl⟩ := List.mem_map.mp hk'
      rintro rfl
      obtain rfl : j = k := by
        cases hout : fwd.outbound req with
        | none => simp [hout] at hk''
        | some out' => simpa [hout] using hk''
      exact hnew out hsent
  intact := h.intact
  accounts := by
    obtain ⟨ks, hnodup, hmem, hentries⟩ := h.accounts
    have hsame : ∀ k', ((s.goto k (.proxied req fwd)).phase k').onLog =
        (s.phase k').onLog := onLog_goto (by rw [hphase]; rfl)
    exact ⟨ks, hnodup, fun k' => (hmem k').trans (by rw [← hsame k']; rfl),
      hentries.imp fun k' e hk' => by rwa [← hsame k'] at hk'⟩

theorem Mediated.step {e : Event σ} (h : Mediated H g s) (hstep : step H g s e = some s') :
    Mediated H g s' := by
  rcases of_step hstep with ⟨w, registry, hsub, rfl⟩ | ⟨k, w, p, hadvance, rfl⟩ |
    ⟨k, now, v, hphase, rfl⟩ | ⟨k, req, fwd, hphase, rfl⟩
  · exact ⟨fun k => (h.sound k).mono hsub, h.sent, h.once, h.intact, h.accounts⟩
  · exact h.advance hadvance
  · exact h.record hphase
  · exact h.forward hphase

theorem mediated_of_run {w : σ} {es : List (Event σ)}
    (hrun : Transition.run (Gateway.step H g) (State.new w) es = some s) : Mediated H g s :=
  Transition.invariant (I := Mediated H g) (fun _ _ _ hs h => h.step hs) hrun (mediated_new H g w)

end

/-! ## Arrivals -/

theorem Advance.forwarding {g : Config ε σ} {registry : Registry} {k : ℕ} {e : Event σ}
    {p p' : Phase ε σ} {fwd : Forwarding} (h : Advance g registry k e p p')
    (hfwd : p'.forwarding = some fwd) : p.forwarding = some fwd ∨ e = .arrive k fwd.inbound := by
  cases h with
  | unrouted => cases hfwd
  | refused => cases hfwd
  | admitted hadmitted =>
      cases hfwd
      exact .inr rfl
  | passed hstage => exact .inl hfwd
  | failed => cases hfwd
  | allowed hpassport => exact .inl hfwd

theorem forwarding_goto {s : State ε σ} {k k' : ℕ} {p : Phase ε σ} {fwd : Forwarding} {Q : Prop}
    (h : p.forwarding = some fwd → (s.phase k).forwarding = some fwd ∨ Q)
    (hfwd : ((s.goto k p).phase k').forwarding = some fwd) :
    (s.phase k').forwarding = some fwd ∨ k' = k ∧ Q := by
  rw [phase_goto] at hfwd
  split at hfwd
  · next hk =>
      subst hk
      exact (h hfwd).imp_right fun hQ => ⟨rfl, hQ⟩
  · exact .inl hfwd

theorem forwarding_of_step {H : Hash 32} {g : Config ε σ} {s s' : State ε σ} {e : Event σ} {k : ℕ}
    {fwd : Forwarding} (hstep : step H g s e = some s') (hfwd : (s'.phase k).forwarding = some fwd) :
    (s.phase k).forwarding = some fwd ∨ e = .arrive k fwd.inbound := by
  rcases of_step hstep with ⟨w, registry, -, rfl⟩ | ⟨k', w, p, hadvance, rfl⟩ |
    ⟨k', now, v, hphase, rfl⟩ | ⟨k', req, fwd', hphase, rfl⟩
  · exact .inl hfwd
  · rcases forwarding_goto hadvance.forwarding hfwd with hold | ⟨rfl, harrive⟩
    · exact .inl hold
    · exact .inr harrive
  · refine (forwarding_goto (Q := False) (fun h => .inl ?_) hfwd).imp_right fun h => h.2.elim
    obtain ⟨req, _ | _⟩ := v
    · cases h
    · show (s.phase k').forwarding = some fwd
      rw [hphase]
      exact h
  · refine (forwarding_goto (Q := False) (fun h => .inl ?_) hfwd).imp_right fun h => h.2.elim
    show (s.phase k').forwarding = some fwd
    rw [hphase]
    exact h

/-- What is to be forwarded for a request goes back to its arrival. -/
theorem arrived_of_run {H : Hash 32} {g : Config ε σ} {w : σ} {es : List (Event σ)} {s : State ε σ}
    {k : ℕ} {fwd : Forwarding} (hrun : Transition.run (step H g) (State.new w) es = some s)
    (hfwd : (s.phase k).forwarding = some fwd) : .arrive k fwd.inbound ∈ es := by
  rcases Transition.origin (P := fun s => (s.phase k).forwarding = some fwd)
    (fun _ _ _ hstep h => forwarding_of_step hstep h) hrun hfwd with hnew | ⟨e, he, rfl⟩
  · cases hnew
  · exact he

/-! ## The results -/

theorem exists_mem_of_forall₂ {α β : Type} {R : α → β → Prop} {as : List α} {bs : List β}
    (h : List.Forall₂ R as bs) {a : α} (ha : a ∈ as) : ∃ b ∈ bs, R a b := by
  induction h with
  | nil => cases ha
  | cons hab _ ih =>
      rcases List.mem_cons.mp ha with rfl | ha
      · exact ⟨_, List.mem_cons_self, hab⟩
      · obtain ⟨b, hb, hR⟩ := ih ha
        exact ⟨b, List.mem_cons_of_mem _ hb, hR⟩

/-- What has been sent goes back to a request that has arrived, was admitted and has passed. -/
theorem of_sent {H : Hash 32} {g : Config ε σ} {w : σ} {es : List (Event σ)} {s : State ε σ}
    (hrun : Transition.run (step H g) (State.new w) es = some s) {k : ℕ} {out : Outbound}
    (hsent : (k, out) ∈ s.sent) :
    ∃ fwd req₀ req P, s.phase k = .proxied req fwd ∧ .arrive k fwd.inbound ∈ es ∧
      Admitted g s.registry req₀ fwd ∧ Passed g.stages req₀ req ∧ req.passport = some P ∧
      fwd.outbound req = some out := by
  have h := mediated_of_run hrun
  obtain ⟨req, fwd, hphase, hout⟩ := h.sent k out hsent
  have hsound := h.sound k
  rw [hphase] at hsound
  obtain ⟨req₀, P, hadmitted, hpassed, hpassport⟩ := hsound fwd rfl
  exact ⟨fwd, req₀, req, P, hphase, arrived_of_run hrun (by rw [hphase]; rfl), hadmitted, hpassed,
    hpassport, hout⟩

namespace MediationSample

def passport : Passport :=
  ⟨Bytes.ascii "jti", Bytes.ascii "p", Bytes.ascii "a", Bytes.ascii "s", ⟨[], none⟩, none, none, 0, 0⟩

/-- A gateway whose only stage gives every request the passport. -/
def minting : Config Empty Unit where
  stages := [⟨Bytes.ascii "mint", updateRequest fun req => { req with passport := some passport }⟩]
  ready := none
  maxRequestBody := 0
  errorText := fun e => e.elim
  reasonText := fun _ => []

def arrival (path : String) : Inbound :=
  ⟨Sample.stripping, ⟨Bytes.ascii path, []⟩, ⟨[], none⟩, none⟩

def interleaved : List (Event Unit) :=
  [.register (Bytes.ascii "s") (some Sample.upstream), .arrive 0 (arrival "/servers/s/mcp"),
    .arrive 1 (arrival "/servers/t/mcp"), .stage 0, .record 1 8, .stage 0, .record 0 9, .forward 0]

/-- The requests for which something is sent, and the servers on the log. -/
def observed (s : State Empty Unit) : List ℕ × List Bytes :=
  (s.sent.map Prod.fst, s.log.entries.map Audit.Entry.server)

theorem exists_run_interleaved :
    ∃ s, Transition.run (step (.checksum 32) minting) (State.new ()) interleaved = some s ∧
      observed s = ([0], [Bytes.ascii "t", Bytes.ascii "s"]) :=
  Option.map_eq_some_iff.mp (by decide +kernel)

end MediationSample

theorem report_congr {b : Bool} {e e' : Audit.Entry} (h : e.recorded = e'.recorded) :
    Audit.report b e = Audit.report b e' := by
  have hreport : ∀ e, Audit.report b e = (fun r : Audit.Recorded => (⟨r.passportID, r.principal,
      r.agent, r.server, r.action, r.reason, r.delegation, b⟩ : Audit.Report)) e.recorded := fun _ => rfl
  rw [hreport, hreport, h]

theorem passportID_entry (g : Config ε σ) (now : ℤ) (v : Verdict) :
    (g.entry now v).passportID = (v.req.passport.map Passport.id).getD [] := by
  rw [Config.entry]
  split <;> rfl

/-- A passport id that one request has leads to the record of that request. -/
theorem Mediated.investigate {H : Hash 32} {g : Config ε σ} {s : State ε σ} (h : Mediated H g s) {k : ℕ}
    {v : Verdict} {P : Passport} (hk : (s.phase k).onLog = some v) (hP : v.req.passport = some P)
    (hne : P.id ≠ [])
    (hunique : ∀ k' v' P', (s.phase k').onLog = some v' → v'.req.passport = some P' →
      P'.id = P.id → k' = k) :
    ∃ now, s.log.investigate H P.id = .ok (Audit.report true (g.entry now v)) := by
  obtain ⟨ks, -, hmem, hentries⟩ := h.accounts
  obtain ⟨e, he, v', hv', now, hrecorded⟩ :=
    exists_mem_of_forall₂ hentries ((hmem k).mpr (by rw [hk]; rfl))
  rw [hk] at hv'
  obtain rfl := Option.some.inj hv'
  have hid : e.passportID = P.id := by
    have hfield := congrArg Audit.Recorded.passportID hrecorded
    rw [show e.recorded.passportID = e.passportID from rfl] at hfield
    rw [hfield]
    show (g.entry now v).passportID = P.id
    rw [passportID_entry, hP]
    rfl
  -- the entry that is found has the id, so it is the record of the same request
  obtain ⟨e₁, hfind⟩ := Option.isSome_iff_exists.mp
    (List.find?_isSome.mpr ⟨e, he, by simpa using hid⟩ :
      (s.log.entries.find? fun e => e.passportID = P.id).isSome = true)
  have he₁ : e₁.passportID = P.id := by simpa using List.find?_some hfind
  obtain ⟨k₁, -, v₁, hv₁, now₁, hrecorded₁⟩ :=
    exists_mem_of_forall₂ hentries.flip (List.mem_of_find?_eq_some hfind)
  have hpassport : (v₁.req.passport.map Passport.id).getD [] = P.id := by
    rw [← passportID_entry g now₁ v₁, ← he₁]
    exact (congrArg Audit.Recorded.passportID hrecorded₁).symm
  obtain ⟨P₁, hP₁, hsame⟩ : ∃ P₁, v₁.req.passport = some P₁ ∧ P₁.id = P.id := by
    cases hpassport₁ : v₁.req.passport with
    | none =>
        rw [hpassport₁] at hpassport
        exact absurd hpassport.symm hne
    | some P₁ =>
        rw [hpassport₁] at hpassport
        exact ⟨P₁, rfl, hpassport⟩
  obtain rfl := hunique k₁ v₁ P₁ hv₁ hP₁ hsame
  rw [hk] at hv₁
  obtain rfl := Option.some.inj hv₁
  refine ⟨now₁, ?_⟩
  rw [Audit.HashChainLog.investigate, hfind, ← report_congr hrecorded₁, h.intact.verified]
  rfl

end Sanad.Gateway
