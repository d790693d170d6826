import Sanad.Common.Transition
import Sanad.Tooldefs.Verdict

/-! # The quarantine

`tooldefs/guard.go`: what a run of the guard does. Responses are inspected, event streams are read in
chunks, and each of their events is checked when its turn comes, in any order between the streams and
the calls. A pinned server is held after a verdict other than a match and released after a match, and
the stage on the request path denies what the quarantine does not let through.
-/

namespace Sanad.Tooldefs

open Gateway

/-! ## Runs -/

/-- An observation that gave a verdict. -/
structure Judged where
  server : Bytes
  verdict : Verdict
  mode : Mode
  deriving DecidableEq, Repr

/-- An event stream that is read: the configuration it was opened with, the watcher, and what that has
seen and not called back with yet. -/
structure Stream where
  watch : Watch
  watcher : Watcher
  pending : List Seen

/-- A call of `Inspect`: the request, what it returned, and the stream it left to be read. -/
structure InspectCall where
  req : Request
  refusal : Option Refusal
  stream : Option Stream

/-- The guard, the calls of `Inspect` so far, the events with the number of the call that emitted them,
and the verdicts, the latest one first. -/
structure Session where
  guard : GuardState
  calls : List InspectCall
  log : List (ℕ × Observation)
  judged : List Judged

/-- `newGuard` -/
def Session.new : Session := ⟨⟨fun _ => none, fun _ => [], []⟩, [], [], []⟩

/-- What the call with the number returned. -/
def Session.returned (s : Session) (n : ℕ) : Option (Option Refusal) :=
  (s.calls[n]?).map InspectCall.refusal

/-- The most recent verdict on a server. -/
def latest (judged : List Judged) (server : Bytes) : Option Judged :=
  judged.find? fun j => j.server = server

/-- The verdicts with one more, if it counts. -/
def GuardConfig.judge (cfg : GuardConfig) (server : Bytes) (v : Option Verdict) (judged : List Judged) :
    List Judged :=
  ((cfg.ifPinned server v).map fun v => ⟨server, v, cfg.mode server⟩).toList ++ judged

/-- The session after an observation for the call with the number. -/
def Session.observed (s : Session) (cfg : GuardConfig) (n : ℕ) (server : Bytes) (v : Option Verdict)
    (g : GuardState) : Session :=
  { s with
    guard := g
    log := s.log ++ (g.emitted.drop s.guard.emitted.length).map fun ev => (n, ev)
    judged := cfg.judge server v s.judged }

/-- What the request path reads of the session. -/
def sessionGuard : Guard Session where
  quarantined s server := (s.guard.quarantined server).map Observation.toEvent

/-- What happens to the guard. A stream is read in chunks, and reading waits until everything that was
seen has been called back with. -/
inductive GuardEvent where
  | inspect (now : ℤ) (req : Request) (resp : Response)
  | read (call : ℕ) (chunk : Bytes)
  | callBack (call : ℕ) (now : ℤ)
  | stage (req : Request)

section

variable (hash : Bytes → Bytes) (parseMediaType : Bytes → Option Bytes)
  (gunzip : Bytes → Except Bytes Body) (cfg : GuardConfig)

def sessionStep (s : Session) : GuardEvent → Option Session
  | .inspect now req resp =>
    let r := inspect hash parseMediaType gunzip cfg now req resp s.guard
    let stream :=
      if r.1.watched then (cfg.watched req.server).map fun w => ⟨w, .new, []⟩ else none
    some
      { s.observed cfg s.calls.length req.server
          (responseVerdict hash cfg gunzip parseMediaType req resp) r.2 with
        calls := s.calls ++ [⟨req, r.1.refusal, stream⟩] }
  | .read n chunk => do
    let call ← s.calls[n]?
    let stream ← call.stream
    if stream.pending = [] then
      let r := stream.watcher.read cfg.limit chunk
      some { s with calls := s.calls.set n { call with stream := some ⟨stream.watch, r.1, r.2⟩ } }
    else none
  | .callBack n now => do
    let call ← s.calls[n]?
    let stream ← call.stream
    match stream.pending with
    | [] => none
    | seen :: rest =>
      some
        { s.observed cfg n call.req.server (seenVerdict hash cfg call.req.server seen)
            (onSeen hash cfg now call.req stream.watch seen s.guard) with
          calls := s.calls.set n { call with stream := some { stream with pending := rest } } }
  | .stage req =>
    match (stage sessionGuard).handle (s, req) with
    | .ok _ w => some w.1
    | .error _ w => some w.1

variable {hash parseMediaType gunzip cfg}

theorem sessionStep_stage (s : Session) (req : Request) :
    sessionStep hash parseMediaType gunzip cfg s (.stage req) = some s := by
  rw [sessionStep]
  by_cases hdenied : (∃ ev, sessionGuard.quarantined s req.server = some ev ∧ ev.mode = .deny) ∧
      recoveryOnly req = false
  · obtain ⟨⟨ev, hev, hmode⟩, hrecovery⟩ := hdenied
    obtain ⟨err, req', hresult⟩ := handle_stage_denies hev hmode hrecovery
    rw [hresult]
  · rw [handle_stage_passes]
    intro ev hev hmode
    by_contra hrecovery
    exact hdenied ⟨⟨ev, hev, hmode⟩, Bool.eq_false_iff.mpr hrecovery⟩

/-- A call that left a stream: it refused nothing, its server is watched as it was then, and the watcher
keeps to the limit. -/
structure InspectCall.Streams (cfg : GuardConfig) (call : InspectCall) (st : Stream) : Prop where
  refusal : call.refusal = none
  watched : cfg.watched call.req.server = some st.watch
  bounded : st.watcher.Bounded cfg.limit

/-- What an event can do to the session. -/
inductive Moves (hash : Bytes → Bytes) (cfg : GuardConfig) (s : Session) :
    GuardEvent → Session → Prop where
  | inspect {now : ℤ} {req : Request} {resp : Response} {refusal : Option Refusal}
      {stream : Option Stream} {v : Option Verdict} {g : GuardState}
      (hobserved : Observed req.server (cfg.mode req.server) refusal.isSome s.guard
        (cfg.ifPinned req.server v) g)
      (hstream : ∀ st ∈ stream, InspectCall.Streams cfg ⟨req, refusal, stream⟩ st) :
      Moves hash cfg s (.inspect now req resp)
        { s.observed cfg s.calls.length req.server v g with
          calls := s.calls ++ [⟨req, refusal, stream⟩] }
  | read {n : ℕ} {chunk : Bytes} {call : InspectCall} {stream stream' : Stream}
      (hcall : s.calls[n]? = some call) (hstream : call.stream = some stream)
      (hwatch : stream'.watch = stream.watch)
      (hbounded : stream.watcher.Bounded cfg.limit → stream'.watcher.Bounded cfg.limit) :
      Moves hash cfg s (.read n chunk)
        { s with calls := s.calls.set n { call with stream := some stream' } }
  | callBack {n : ℕ} {now : ℤ} {call : InspectCall} {stream stream' : Stream} {seen : Seen}
      (hcall : s.calls[n]? = some call) (hstream : call.stream = some stream)
      (hwatch : stream'.watch = stream.watch)
      (hbounded : stream.watcher.Bounded cfg.limit → stream'.watcher.Bounded cfg.limit) :
      Moves hash cfg s (.callBack n now)
        { s.observed cfg n call.req.server (seenVerdict hash cfg call.req.server seen)
            (onSeen hash cfg now call.req stream.watch seen s.guard) with
          calls := s.calls.set n { call with stream := some stream' } }
  | stage {req : Request} : Moves hash cfg s (.stage req) s

theorem moves_of_sessionStep {s s' : Session} {e : GuardEvent}
    (h : sessionStep hash parseMediaType gunzip cfg s e = some s') : Moves hash cfg s e s' := by
  cases e with
  | inspect now req resp =>
      rw [sessionStep] at h
      cases h
      refine .inspect (observed_inspect hash now gunzip parseMediaType resp s.guard) ?_
      intro st hst
      split_ifs at hst with hwatched
      · obtain ⟨w, hw, rfl⟩ := Option.map_eq_some_iff.mp hst
        exact ⟨refusal_of_watched hwatched, hw, cfg.limit_pos.le, cfg.limit_pos.le⟩
      · cases hst
  | read n chunk =>
      simp only [sessionStep, Option.bind_eq_bind, Option.bind_eq_some_iff] at h
      obtain ⟨call, hcall, stream, hstream, h⟩ := h
      split_ifs at h
      cases h
      exact .read hcall hstream rfl fun h => h.read cfg.limit_pos.le chunk
  | callBack n now =>
      simp only [sessionStep, Option.bind_eq_bind, Option.bind_eq_some_iff] at h
      obtain ⟨call, hcall, stream, hstream, h⟩ := h
      cases hpending : stream.pending with
      | nil =>
          rw [hpending] at h
          cases h
      | cons seen rest =>
          rw [hpending] at h
          cases h
          exact .callBack hcall hstream rfl id
  | stage req =>
      rw [sessionStep_stage] at h
      cases h
      exact .stage

/-! ## What holds in every run -/

/-- The session is consistent. -/
structure Session.Inv (cfg : GuardConfig) (s : Session) : Prop where
  streams : ∀ call ∈ s.calls, ∀ st ∈ call.stream, call.Streams cfg st
  /-- The events of a call say whether it refused the response. -/
  log : ∀ n ev, (n, ev) ∈ s.log →
    ∃ refusal, s.returned n = some refusal ∧ (ev.blocked = true ↔ refusal.isSome = true)
  /-- A refusal is on record. -/
  recorded : ∀ n refusal, s.returned n = some (some refusal) → ∃ ev, (n, ev) ∈ s.log
  /-- A server is held as long as the latest verdict on it is not a match. -/
  held : ∀ server, (s.guard.quarantined server).map (fun ev => ev.mode) =
    (latest s.judged server).bind fun j => if j.verdict = .matched then none else some j.mode
  /-- The verdicts are on pinned servers. -/
  pinned : ∀ j ∈ s.judged, (cfg.watched j.server).any Watch.pinned = true

section

variable {s : Session} {n : ℕ} {server : Bytes} {v : Option Verdict} {g : GuardState}
  {refused : Bool}

theorem mem_of_latest {judged : List Judged} {j : Judged} (h : latest judged server = some j) :
    j ∈ judged ∧ j.server = server := by
  rw [latest] at h
  have hserver := List.find?_some h
  exact ⟨List.mem_of_find?_eq_some h, of_decide_eq_true hserver⟩

theorem latest_judge_of_ne {x : Bytes} (hx : x ≠ server) :
    latest (cfg.judge server v s.judged) x = latest s.judged x := by
  rw [latest, GuardConfig.judge]
  cases cfg.ifPinned server v with
  | none => rfl
  | some verdict =>
      simp only [Option.map_some, Option.toList_some, List.cons_append, List.nil_append,
        List.find?_cons, decide_eq_false (Ne.symm hx)]
      rfl

theorem latest_judge_self {verdict : Verdict} (hv : cfg.ifPinned server v = some verdict) :
    latest (cfg.judge server v s.judged) server = some ⟨server, verdict, cfg.mode server⟩ := by
  rw [latest, GuardConfig.judge, hv]
  simp only [Option.map_some, Option.toList_some, List.cons_append, List.find?_cons, decide_true]

theorem held_observed
    (hobserved : Observed server (cfg.mode server) refused s.guard (cfg.ifPinned server v) g)
    (h : s.Inv cfg) (x : Bytes) :
    (g.quarantined x).map (fun ev => ev.mode) =
      (latest (cfg.judge server v s.judged) x).bind fun j =>
        if j.verdict = .matched then none else some j.mode := by
  by_cases hx : x = server
  · subst hx
    cases hv : cfg.ifPinned x v with
    | none =>
        rw [hv] at hobserved
        rw [hobserved.quarantined_of_none, GuardConfig.judge, hv]
        exact h.held x
    | some verdict =>
        rw [hv] at hobserved
        rw [latest_judge_self hv, Option.bind_some]
        by_cases hmatched : verdict = .matched
        · subst hmatched
          rw [hobserved.quarantined_of_matched, if_pos rfl, Option.map_none]
        · obtain ⟨ev, hev, hmode⟩ := hobserved.quarantined_of_ne_matched hmatched
          rw [hev, if_neg hmatched, Option.map_some, hmode]
  · rw [latest_judge_of_ne hx, (hobserved.frame hx).1]
    exact h.held x

/-- The events of an observation are those of its call. -/
theorem mem_log_observed
    (hobserved : Observed server (cfg.mode server) refused s.guard (cfg.ifPinned server v) g)
    {m : ℕ} {ev : Observation} (hmem : (m, ev) ∈ (s.observed cfg n server v g).log) :
    (m, ev) ∈ s.log ∨ m = n ∧ ev.blocked = refused := by
  obtain ⟨evs, hemitted, hblocked, -⟩ := hobserved.emitted
  rw [Session.observed, hemitted, List.drop_left] at hmem
  rcases List.mem_append.mp hmem with hold | hnew
  · exact .inl hold
  · obtain ⟨ev', hev', heq⟩ := List.mem_map.mp hnew
    cases heq
    exact .inr ⟨rfl, hblocked ev hev'⟩

theorem exists_mem_log_observed
    (hobserved : Observed server (cfg.mode server) true s.guard (cfg.ifPinned server v) g) :
    ∃ ev, (n, ev) ∈ (s.observed cfg n server v g).log := by
  obtain ⟨evs, hemitted, -, hne⟩ := hobserved.emitted
  obtain ⟨ev, hev⟩ := List.exists_mem_of_ne_nil evs (hne rfl)
  refine ⟨ev, ?_⟩
  rw [Session.observed, hemitted, List.drop_left]
  exact List.mem_append_right _ (List.mem_map.mpr ⟨ev, hev, rfl⟩)

theorem pinned_judge (h : s.Inv cfg) :
    ∀ j ∈ cfg.judge server v s.judged, (cfg.watched j.server).any Watch.pinned = true := by
  intro j hj
  rcases List.mem_append.mp hj with hnew | hold
  · rw [Option.mem_toList, Option.map_eq_some_iff] at hnew
    obtain ⟨verdict, hverdict, rfl⟩ := hnew
    rw [GuardConfig.ifPinned] at hverdict
    split_ifs at hverdict with hpinned
    exact hpinned
  · exact h.pinned j hold

end

section

variable {s s' : Session} {e : GuardEvent}

/-- A call keeps its result when its stream moves on. -/
theorem refusal_set_stream {n : ℕ} {call : InspectCall} {stream : Option Stream}
    (hcall : s.calls[n]? = some call) (m : ℕ) :
    ((s.calls.set n { call with stream })[m]?).map InspectCall.refusal = s.returned m := by
  rw [Session.returned]
  by_cases hnm : n = m
  · subst hnm
    rw [List.getElem?_set_self (List.getElem?_eq_some_iff.mp hcall).1, hcall]
    rfl
  · rw [List.getElem?_set_ne hnm]

/-- The stream of a call moves on. -/
theorem streams_set {n : ℕ} {call : InspectCall} {stream stream' : Stream} (h : s.Inv cfg)
    (hcall : s.calls[n]? = some call) (hstream : call.stream = some stream)
    (hwatch : stream'.watch = stream.watch)
    (hbounded : stream.watcher.Bounded cfg.limit → stream'.watcher.Bounded cfg.limit) :
    ∀ c ∈ s.calls.set n { call with stream := some stream' }, ∀ st ∈ c.stream, c.Streams cfg st := by
  intro c hc st hst
  rcases List.mem_or_eq_of_mem_set hc with hold | rfl
  · exact h.streams c hold st hst
  · cases hst
    have hbefore := h.streams call (List.mem_of_getElem? hcall) stream hstream
    exact ⟨hbefore.refusal, hwatch ▸ hbefore.watched, hbounded hbefore.bounded⟩

theorem Session.Inv.step (h : s.Inv cfg)
    (hstep : sessionStep hash parseMediaType gunzip cfg s e = some s') : s'.Inv cfg := by
  cases moves_of_sessionStep hstep with
  | stage => exact h
  | @read n chunk call stream stream' hcall hstream hwatch hbounded =>
      -- Reading only fills the watcher; the guard hears of it in the callbacks.
      refine ⟨streams_set h hcall hstream hwatch hbounded, fun m ev hev => ?_, fun m refusal hm => ?_, h.held,
        h.pinned⟩
      · rw [returned, refusal_set_stream hcall]
        exact h.log m ev hev
      · rw [returned, refusal_set_stream hcall] at hm
        exact h.recorded m refusal hm
  | @inspect now req resp refusal stream v g hobserved hstream =>
      refine ⟨fun c hc st hst => ?_, fun m ev hev => ?_, fun m refusal' hm => ?_,
        held_observed hobserved h, pinned_judge h⟩
      · rcases List.mem_append.mp hc with hold | hnew
        · exact h.streams c hold st hst
        · cases List.mem_singleton.mp hnew
          exact hstream st hst
      · rcases mem_log_observed hobserved hev with hold | ⟨rfl, hblocked⟩
        · obtain ⟨r, hr, hiff⟩ := h.log m ev hold
          obtain ⟨call, hcall, hcall'⟩ := Option.map_eq_some_iff.mp hr
          refine ⟨r, Option.map_eq_some_iff.mpr ⟨call, ?_, hcall'⟩, hiff⟩
          exact Transition.getElem?_concat_eq_some_iff.mpr (.inl hcall)
        · exact ⟨refusal, congrArg _ List.getElem?_concat_length, by rw [hblocked]⟩
      · obtain ⟨call, hcall, hrefusal⟩ := Option.map_eq_some_iff.mp hm
        rcases Transition.getElem?_concat_eq_some_iff.mp hcall with hold | ⟨rfl, rfl⟩
        · obtain ⟨ev, hev⟩ := h.recorded m refusal' (Option.map_eq_some_iff.mpr ⟨call, hold, hrefusal⟩)
          exact ⟨ev, List.mem_append_left _ hev⟩
        · subst hrefusal
          exact exists_mem_log_observed hobserved
  | @callBack n now call stream stream' seen hcall hstream hwatch hbounded =>
      obtain ⟨hrefusal, hw, -⟩ := h.streams call (List.mem_of_getElem? hcall) stream hstream
      -- The stream was opened with the configuration, which has not changed since.
      have hobserved := observed_onSeen hash now hw seen s.guard
      rw [← GuardConfig.mode_of_watched hw] at hobserved
      refine ⟨streams_set h hcall hstream hwatch hbounded, fun m ev hev => ?_, fun m refusal hm => ?_,
        held_observed hobserved h, pinned_judge h⟩
      · rw [returned, refusal_set_stream hcall]
        rcases mem_log_observed hobserved hev with hold | ⟨rfl, hblocked⟩
        · exact h.log m ev hold
        · refine ⟨none, ?_, by rw [hblocked]; decide⟩
          rw [returned, hcall, Option.map_some, hrefusal]
      · rw [returned, refusal_set_stream hcall] at hm
        obtain ⟨ev, hev⟩ := h.recorded m refusal hm
        exact ⟨ev, List.mem_append_left _ hev⟩

theorem Session.inv_new : Session.new.Inv cfg where
  streams _ hcall := nomatch hcall
  log _ _ hev := nomatch hev
  recorded _ _ hreturned := nomatch hreturned
  held _ := rfl
  pinned _ hj := nomatch hj

theorem Session.inv_of_run {es : List GuardEvent}
    (hrun : Transition.run (sessionStep hash parseMediaType gunzip cfg) .new es = some s) :
    s.Inv cfg :=
  Transition.invariant (fun _ _ _ hstep hinv => hinv.step hstep) hrun Session.inv_new

/-- However many streams are open and whatever they send, none of them takes more memory than the limit
allows for a line and an event. -/
theorem watcher_bounded_of_run {es : List GuardEvent}
    (hrun : Transition.run (sessionStep hash parseMediaType gunzip cfg) .new es = some s)
    {call : InspectCall} (hcall : call ∈ s.calls) {st : Stream} (hst : call.stream = some st) :
    st.watcher.Bounded cfg.limit :=
  ((Session.inv_of_run hrun).streams call hcall st hst).bounded

end

/-- The server that an event is about. -/
def Session.serverOf (s : Session) : GuardEvent → Option Bytes
  | .inspect _ req _ => some req.server
  | .read n _ => (s.calls[n]?).map fun call => call.req.server
  | .callBack n _ => (s.calls[n]?).map fun call => call.req.server
  | .stage req => some req.server

/-- An event about one server leaves the others as they are. -/
theorem frame_sessionStep {s s' : Session} {e : GuardEvent} (h : s.Inv cfg)
    (hstep : sessionStep hash parseMediaType gunzip cfg s e = some s') {server : Bytes}
    (hserver : s.serverOf e ≠ some server) :
    s'.guard.quarantined server = s.guard.quarantined server ∧
      s'.guard.reported server = s.guard.reported server ∧ latest s'.judged server = latest s.judged server := by
  cases moves_of_sessionStep hstep with
  | stage => exact ⟨rfl, rfl, rfl⟩
  | read => exact ⟨rfl, rfl, rfl⟩
  | inspect hobserved =>
      have hne : server ≠ _ := fun heq => hserver (congrArg some heq.symm)
      obtain ⟨hquarantined, hreported⟩ := hobserved.frame hne
      exact ⟨hquarantined, hreported, latest_judge_of_ne hne⟩
  | @callBack n now call stream stream' seen hcall hstream hwatch hbounded =>
      obtain ⟨-, hw, -⟩ := h.streams call (List.mem_of_getElem? hcall) stream hstream
      have hne : server ≠ call.req.server := by
        intro heq
        rw [Session.serverOf, hcall, heq] at hserver
        exact hserver rfl
      obtain ⟨hquarantined, hreported⟩ := (observed_onSeen hash now hw seen s.guard).frame hne
      exact ⟨hquarantined, hreported, latest_judge_of_ne hne⟩

end

/-! ## The state machine -/

/-- The quarantine, the stage and the record agree with what was observed. -/
structure QuarantineSound (hash : Bytes → Bytes) (parseMediaType : Bytes → Option Bytes)
    (gunzip : Bytes → Except Bytes Body) (cfg : GuardConfig) (s : Session) : Prop where
  /-- A server is quarantined exactly if it is pinned and the latest verdict on it is not a match. -/
  quarantined : ∀ server, (s.guard.quarantined server).isSome = true ↔
    (cfg.watched server).any Watch.pinned = true ∧
      ∃ j, latest s.judged server = some j ∧ j.verdict ≠ .matched
  /-- It is held in the mode of that observation. -/
  mode : ∀ server ev, s.guard.quarantined server = some ev →
    ∃ j, latest s.judged server = some j ∧ j.mode = ev.mode
  /-- The stage denies exactly what goes to a server held in deny mode and is not recovery. -/
  denied : ∀ req, (∃ err w, (stage sessionGuard).handle (s, req) = .error err w) ↔
    (∃ ev, s.guard.quarantined req.server = some ev ∧ ev.mode = .deny) ∧ recoveryOnly req = false
  /-- What happens to one server leaves the others as they are, -/
  frame : ∀ e s', sessionStep hash parseMediaType gunzip cfg s e = some s' →
    ∀ server, s.serverOf e ≠ some server →
      s'.guard.quarantined server = s.guard.quarantined server ∧
        s'.guard.reported server = s.guard.reported server ∧
        latest s'.judged server = latest s.judged server
  /-- and what a call returns does not depend on what was observed. -/
  returned : ∀ now req resp g,
    (inspect hash parseMediaType gunzip cfg now req resp s.guard).1 =
      (inspect hash parseMediaType gunzip cfg now req resp g).1
  /-- An event is blocked exactly if the call that emitted it refused the response, -/
  blocked : ∀ n ev, (n, ev) ∈ s.log →
    ∃ refusal, s.returned n = some refusal ∧ (ev.blocked = true ↔ refusal.isSome = true)
  /-- and a call that refused a response emitted an event. -/
  recorded : ∀ n refusal, s.returned n = some (some refusal) → ∃ ev, (n, ev) ∈ s.log

/-- Whatever is inspected, streamed and asked for, in whatever order. -/
theorem quarantineSound_of_run (hash : Bytes → Bytes) (parseMediaType : Bytes → Option Bytes)
    (gunzip : Bytes → Except Bytes Body) (cfg : GuardConfig) (es : List GuardEvent) (s : Session)
    (hrun : Transition.run (sessionStep hash parseMediaType gunzip cfg) .new es = some s) :
    QuarantineSound hash parseMediaType gunzip cfg s := by
  have h : s.Inv cfg := Session.inv_of_run hrun
  refine ⟨fun server => ?_, fun server ev hev => ?_, fun req => ?_, fun e s' hstep server hserver => ?_,
    fun now req resp g => inspect_fst_eq s.guard g resp, h.log, h.recorded⟩
  · rw [← Option.isSome_map (f := fun ev : Observation => ev.mode), h.held server]
    constructor
    · intro hheld
      obtain ⟨m, hm⟩ := Option.isSome_iff_exists.mp hheld
      obtain ⟨j, hj, hmode⟩ := Option.bind_eq_some_iff.mp hm
      split_ifs at hmode with hmatched
      obtain ⟨hmem, rfl⟩ := mem_of_latest hj
      exact ⟨h.pinned j hmem, j, hj, hmatched⟩
    · rintro ⟨-, j, hj, hne⟩
      rw [hj, Option.bind_some, if_neg hne]
      rfl
  · have hheld := h.held server
    rw [hev] at hheld
    obtain ⟨j, hj, hmode⟩ := Option.bind_eq_some_iff.mp hheld.symm
    split_ifs at hmode
    exact ⟨j, hj, Option.some.inj hmode⟩
  · rw [handle_stage_error_iff]
    refine and_congr_left fun _ => ⟨fun ⟨ev, hev, hmode⟩ => ?_, fun ⟨ev, hev, hmode⟩ => ?_⟩
    · obtain ⟨held, hheld, rfl⟩ := Option.map_eq_some_iff.mp hev
      exact ⟨held, hheld, hmode⟩
    · exact ⟨ev.toEvent, Option.map_eq_some_iff.mpr ⟨ev, hev, rfl⟩, hmode⟩
  · exact frame_sessionStep h hstep hserver

/-! The server s is pinned to the empty tool list. It sends a body in an encoding that cannot be read,
then the approved list, and then an event stream with a line that is too long. -/

namespace QuarantineSample

def config : GuardConfig where
  approved server := if server = Bytes.ascii "s" then some [] else none
  watched server := if server = Bytes.ascii "s" then some ⟨true, .deny⟩ else none
  maxListBytes := 30
  pinned_iff server w h := by
    split at h
    · next hs =>
        cases h
        simp [hs]
    · cases h
  range := by decide

def request (method body : Bytes) : Request where
  server := Bytes.ascii "s"
  target := none
  http := none
  body := some body
  calls := [⟨method, [], false⟩]
  principal := none
  agent := none
  decision := none
  scope := ⟨[], none⟩
  delegation := none
  passport := none

/-- The content type as it is. -/
def parseMediaType : Bytes → Option Bytes := some

def gunzip : Bytes → Except Bytes Body := fun _ => .error []

def lists : Request := request methodToolsList [1]

def encoded : Response :=
  ⟨200, [(Bytes.ascii "Content-Encoding", [Bytes.ascii "br"])], some ⟨[1], none⟩⟩

def approved : Response :=
  ⟨200, [], some ⟨Bytes.ascii "\x7b\"result\":\x7b\"tools\":[]\x7d\x7d", none⟩⟩

def stream : Response :=
  ⟨200, [(Bytes.ascii "Content-Type", [Bytes.ascii "text/event-stream"])], some ⟨[], none⟩⟩

def events : List GuardEvent :=
  [.inspect 1 lists encoded, .stage (request (Bytes.ascii "tools/call") [1]), .inspect 2 lists approved,
    .inspect 3 lists stream, .read 2 (List.replicate 31 0x61), .callBack 2 4]

/-- The server is quarantined in the end, and of the three events only the first one is blocked. -/
def expected (s : Session) : Bool :=
  (s.guard.quarantined (Bytes.ascii "s")).isSome &&
    s.log.map (fun p => (p.1, p.2.blocked)) = [(0, true), (1, false), (2, false)]

end QuarantineSample

open QuarantineSample in
theorem quarantineSound_of_run_sample :
    ∃ s, Transition.run (sessionStep id parseMediaType gunzip config) .new events = some s ∧
      expected s = true ∧ QuarantineSound id parseMediaType gunzip config s := by
  have hrun : (Transition.run (sessionStep id parseMediaType gunzip config) .new events).any expected =
      true := by
    decide +kernel
  obtain ⟨s, hs, hexpected⟩ := (Option.any_eq_true _ _).mp hrun
  exact ⟨s, hs, hexpected, quarantineSound_of_run _ _ _ _ events s hs⟩

end Sanad.Tooldefs