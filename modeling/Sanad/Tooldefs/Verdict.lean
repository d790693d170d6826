import Mathlib.Logic.Function.Basic
import Sanad.Tooldefs.Stream

/-! # Verdicts

`tooldefs/guard.go`: what a response or an event of a stream says about the tools of a server, and what
the guard makes of it. There are many ways to come to a verdict, on two paths and in two modes, and few
things that follow from one.
-/

namespace Sanad.Tooldefs

open Gateway

/-! ## Verdicts -/

/-- What an observation says about the tools of a server. -/
inductive Verdict where
  | matched
  | drifted
  | unverifiable
  deriving DecidableEq, Repr

section

variable (hash : Bytes → Bytes) (cfg : GuardConfig) (server : Bytes)

/-- All definitions of the server, or one page of them. -/
def defsVerdict (defs : Defs) : Verdict :=
  if defs.page then .unverifiable
  else if cfg.approved server = some (hash defs.bytes) then .matched
  else .drifted

/-- A reply. One without a `tools/list` result says nothing. -/
def replyVerdict (plain : Bytes) : Option Verdict :=
  (toolsResult plain).map fun result =>
    match canonical result with
    | .error _ => .unverifiable
    | .ok defs => defsVerdict hash cfg server defs

/-- What the watcher of an event stream has seen. -/
def seenVerdict : Seen → Option Verdict
  | .event data => replyVerdict hash cfg server data
  | .overflow => some .unverifiable

variable (gunzip : Bytes → Except Bytes Body)

/-- A response that is held: too long, not to be decompressed, or a reply. One that breaks off says
nothing. -/
def heldVerdict (enc : Bytes) (body : Body) : Option Verdict :=
  match body.readAll (Time.wrap (cfg.limit + 1)) with
  | (_, some _) => none
  | (buf, none) =>
    if buf.length > cfg.limit then some .unverifiable
    else
      match decompress gunzip enc buf cfg.limit with
      | .error _ => some .unverifiable
      | .ok plain => replyVerdict hash cfg server plain

variable (parseMediaType : Bytes → Option Bytes)

/-- A response to a request. -/
def responseVerdict (req : Request) (resp : Response) : Option Verdict :=
  match resp.body with
  | none => none
  | some body =>
    if listsTools req.calls = true ∧ resp.statusCode.tdiv 100 = 2 then
      if parseMediaType (resp.get (Bytes.ascii "Content-Type")) =
          some (Bytes.ascii "text/event-stream") then
        if resp.contentEncoding ≠ [] then some .unverifiable else none
      else heldVerdict hash cfg req.server gunzip resp.contentEncoding body
    else none

/-- Only the verdicts on a pinned server count. -/
def GuardConfig.ifPinned (v : Option Verdict) : Option Verdict :=
  if (cfg.watched server).any Watch.pinned then v else none

end

/-! ## One observation -/

/-- What an observation of a server does to the guard, given its verdict and whether the response is
refused. -/
inductive Observed (server : Bytes) (mode : Mode) (refused : Bool) (s : GuardState) :
    Option Verdict → GuardState → Prop where
  | silent (h : refused = false) : Observed server mode refused s none s
  | reported (h : refused = false) {fingerprint : Bytes} {ev : Observation} (hev : ev.blocked = false) :
      Observed server mode refused s none
        ({ s with reported := Function.update s.reported server fingerprint }.emit ev)
  | released (h : refused = false) : Observed server mode refused s (some .matched) (s.release server)
  | lifted (h : refused = false) {ev : Observation} (hev : ev.blocked = false) :
      Observed server mode refused s (some .matched) ((s.release server).emit ev)
  | held {v : Verdict} (hv : v ≠ .matched) {ev : Observation} (hmode : ev.mode = mode)
      (hev : ev.blocked = refused) :
      Observed server mode refused s (some v) ((s.hold server ev).emit ev)

section

variable (hash : Bytes → Bytes) {cfg : GuardConfig} (now : ℤ) {req : Request} {w : Watch}
  (canBlock : Bool)

theorem ifPinned_of_pinned {v : Option Verdict} (hw : cfg.watched req.server = some w)
    (h : w.pinned = true) : cfg.ifPinned req.server v = v := by
  rw [GuardConfig.ifPinned, hw, Option.any_some, if_pos h]

theorem ifPinned_of_not {v : Option Verdict} (hw : cfg.watched req.server = some w)
    (h : w.pinned = false) : cfg.ifPinned req.server v = none := by
  rw [GuardConfig.ifPinned, hw, Option.any_some, h, if_neg Bool.false_ne_true]

theorem observed_unverifiable (hw : cfg.watched req.server = some w) (reason : EventReason)
    (s : GuardState) :
    Observed req.server w.mode (unverifiable cfg now req w canBlock reason s).1 s
      (cfg.ifPinned req.server (some .unverifiable))
      (unverifiable cfg now req w canBlock reason s).2 := by
  cases hpinned : w.pinned with
  | false =>
      rw [ifPinned_of_not hw hpinned, unverifiable, hpinned]
      exact .silent rfl
  | true =>
      rw [ifPinned_of_pinned hw hpinned, unverifiable, hpinned]
      exact .held (by decide) rfl rfl

theorem observed_observe (hw : cfg.watched req.server = some w) (defs : Defs) (s : GuardState) :
    Observed req.server w.mode (observe hash cfg now req w canBlock defs s).1 s
      (cfg.ifPinned req.server (some (defsVerdict hash cfg req.server defs)))
      (observe hash cfg now req w canBlock defs s).2 := by
  cases hpinned : w.pinned with
  | false =>
      rw [ifPinned_of_not hw hpinned, observe, if_pos hpinned, GuardState.firstReport]
      by_cases hknown : s.reported req.server = fingerprintString (hash defs.bytes)
      · simp only [hknown, if_true, Bool.false_eq_true, if_false]
        exact .silent rfl
      · simp only [hknown, if_false, if_true]
        exact .reported rfl rfl
  | true =>
      -- A pinned server has an approved fingerprint, so the check is never without an answer.
      obtain ⟨want, hwant⟩ := Option.isSome_iff_exists.mp ((cfg.pinned_iff _ _ hw).mp hpinned)
      rw [observe, if_neg (by rw [hpinned]; decide), defsVerdict]
      cases hpage : defs.page with
      | true => exact observed_unverifiable now canBlock hw _ s
      | false =>
          rw [ifPinned_of_pinned hw hpinned, GuardConfig.check, hwant]
          simp only [Bool.false_eq_true, if_false, Option.some.injEq]
          by_cases heq : want = hash defs.bytes
          · simp only [heq, if_true]
            split_ifs with hheld
            · exact .lifted rfl rfl
            · exact .released rfl
          · simp only [heq, if_false]
            exact .held (by decide) rfl rfl

/-- A definition that cannot be withheld any more is not refused. -/
theorem unverifiable_streamed (reason : EventReason) (s : GuardState) :
    (unverifiable cfg now req w false reason s).1 = false := by
  rw [unverifiable]
  split_ifs
  · rfl
  · rfl

theorem observe_streamed (defs : Defs) (s : GuardState) :
    (observe hash cfg now req w false defs s).1 = false := by
  rw [observe]
  split
  · rfl
  · split
    · exact unverifiable_streamed now _ s
    · split
      all_goals rfl

theorem ifPinned_none : cfg.ifPinned req.server none = none := by
  rw [GuardConfig.ifPinned, ite_self]

theorem observed_onSeen (hw : cfg.watched req.server = some w) (seen : Seen) (s : GuardState) :
    Observed req.server w.mode false s
      (cfg.ifPinned req.server (seenVerdict hash cfg req.server seen))
      (onSeen hash cfg now req w seen s) := by
  have hunverifiable : ∀ reason, Observed req.server w.mode false s
      (cfg.ifPinned req.server (some .unverifiable))
      (unverifiable cfg now req w false reason s).2 := by
    intro reason
    have h := observed_unverifiable now false hw reason s
    rwa [unverifiable_streamed] at h
  cases seen with
  | overflow => exact hunverifiable _
  | event data =>
      rw [seenVerdict, replyVerdict, onSeen]
      cases toolsResult data with
      | none =>
          rw [Option.map_none, ifPinned_none]
          exact .silent rfl
      | some result =>
          simp only [Option.map_some]
          cases canonical result with
          | error err => exact hunverifiable _
          | ok defs =>
              have h := observed_observe hash now false hw defs s
              rwa [observe_streamed] at h

/-- A response that is refused whenever the check says so. -/
theorem observed_refuseIf {mode : Mode} {s : GuardState} {v : Option Verdict} {r : Bool × GuardState}
    (refusal : Refusal) (resp : Response) (h : Observed req.server mode r.1 s v r.2) :
    Observed req.server mode (refuseIf refusal resp r).1.refusal.isSome s v
      (refuseIf refusal resp r).2 := by
  obtain ⟨refused, s'⟩ := r
  cases refused with
  | false => exact h
  | true => exact h

theorem observed_inspectDefinitions (hw : cfg.watched req.server = some w) (plain : Bytes)
    (resp : Response) (s : GuardState) :
    Observed req.server w.mode
      (inspectDefinitions hash cfg now req w plain resp s).1.refusal.isSome s
      (cfg.ifPinned req.server (replyVerdict hash cfg req.server plain))
      (inspectDefinitions hash cfg now req w plain resp s).2 := by
  rw [replyVerdict, inspectDefinitions]
  cases toolsResult plain with
  | none =>
      rw [Option.map_none, ifPinned_none]
      exact .silent rfl
  | some result =>
      simp only [Option.map_some]
      cases canonical result with
      | error err => exact observed_refuseIf _ resp (observed_unverifiable now true hw _ s)
      | ok defs => exact observed_refuseIf _ resp (observed_observe hash now true hw defs s)

/-- A stream is watched, or is compressed and cannot be. -/
theorem observed_inspectStream (hw : cfg.watched req.server = some w) (resp : Response)
    (s : GuardState) :
    Observed req.server w.mode (inspectStream cfg now req w resp s).1.refusal.isSome s
      (cfg.ifPinned req.server (if resp.contentEncoding ≠ [] then some .unverifiable else none))
      (inspectStream cfg now req w resp s).2 := by
  rw [inspectStream]
  split_ifs with henc
  · have h := observed_unverifiable now false hw (.streamEncoded resp.contentEncoding) s
    rwa [unverifiable_streamed] at h
  · rw [ifPinned_none]
    exact .silent rfl

variable (gunzip : Bytes → Except Bytes Body)

theorem observed_inspectBuffered (hw : cfg.watched req.server = some w) (body : Body)
    (resp : Response) (s : GuardState) :
    Observed req.server w.mode
      (inspectBuffered hash gunzip cfg now req w body resp s).1.refusal.isSome s
      (cfg.ifPinned req.server
        (heldVerdict hash cfg req.server gunzip resp.contentEncoding body))
      (inspectBuffered hash gunzip cfg now req w body resp s).2 := by
  rw [heldVerdict, inspectBuffered]
  dsimp only
  cases body.readAll (Time.wrap (cfg.limit + 1)) with
  | mk buf err =>
      cases err with
      | some err =>
          rw [ifPinned_none]
          exact .silent rfl
      | none =>
          dsimp only
          by_cases hlong : buf.length > cfg.limit
          · rw [if_pos hlong, if_pos hlong]
            exact observed_refuseIf _ resp (observed_unverifiable now true hw _ s)
          · -- putting the buffer in place of the body does not change the encoding
            have henc : Response.contentEncoding { resp with body := some ⟨buf, none⟩ } =
                resp.contentEncoding := rfl
            rw [if_neg hlong, if_neg hlong, henc]
            cases decompress gunzip resp.contentEncoding buf cfg.limit with
            | error err => exact observed_refuseIf _ _ (observed_unverifiable now true hw _ s)
            | ok plain => exact observed_inspectDefinitions hash now hw plain _ s

variable (parseMediaType : Bytes → Option Bytes)

/-- The mode that a server is watched in. -/
def GuardConfig.mode (cfg : GuardConfig) (server : Bytes) : Mode :=
  ((cfg.watched server).map Watch.mode).getD .deny

theorem GuardConfig.mode_of_watched {server : Bytes} (hw : cfg.watched server = some w) :
    cfg.mode server = w.mode := by
  rw [GuardConfig.mode, hw]
  rfl

theorem observed_inspect (resp : Response) (s : GuardState) :
    Observed req.server (cfg.mode req.server)
      (inspect hash parseMediaType gunzip cfg now req resp s).1.refusal.isSome s
      (cfg.ifPinned req.server (responseVerdict hash cfg gunzip parseMediaType req resp))
      (inspect hash parseMediaType gunzip cfg now req resp s).2 := by
  rw [inspect, responseVerdict]
  cases hbody : resp.body with
  | none =>
      rw [ifPinned_none]
      exact .silent rfl
  | some body =>
      cases hw : cfg.watched req.server with
      | none =>
          rw [GuardConfig.ifPinned, hw]
          exact .silent rfl
      | some w =>
          rw [GuardConfig.mode_of_watched hw]
          dsimp only
          by_cases hlists : listsTools req.calls = true ∧ resp.statusCode.tdiv 100 = 2
          · rw [if_pos hlists, if_pos hlists]
            by_cases hmedia : parseMediaType (resp.get (Bytes.ascii "Content-Type")) =
                some (Bytes.ascii "text/event-stream")
            · rw [if_pos hmedia, if_pos hmedia]
              exact observed_inspectStream now hw resp s
            · rw [if_neg hmedia, if_neg hmedia]
              exact observed_inspectBuffered hash now gunzip hw body resp s
          · rw [if_neg hlists, if_neg hlists, ifPinned_none]
            exact .silent rfl

end

/-! ## Consequences of an observation -/

namespace Observed

variable {server : Bytes} {mode : Mode} {refused : Bool} {s s' : GuardState} {v : Option Verdict}

/-- The other servers are not concerned. -/
theorem frame (h : Observed server mode refused s v s') {x : Bytes} (hx : x ≠ server) :
    s'.quarantined x = s.quarantined x ∧ s'.reported x = s.reported x := by
  cases h with
  | silent => exact ⟨rfl, rfl⟩
  | reported => exact ⟨rfl, Function.update_of_ne hx _ _⟩
  | released => exact ⟨Function.update_of_ne hx _ _, rfl⟩
  | lifted => exact ⟨Function.update_of_ne hx _ _, rfl⟩
  | held => exact ⟨Function.update_of_ne hx _ _, rfl⟩

/-- Without a verdict, nobody is held or released. -/
theorem quarantined_of_none (h : Observed server mode refused s none s') :
    s'.quarantined = s.quarantined := by
  cases h with
  | silent => rfl
  | reported => rfl

theorem quarantined_of_matched (h : Observed server mode refused s (some .matched) s') :
    s'.quarantined server = none := by
  cases h with
  | released => exact Function.update_self _ _ _
  | lifted => exact Function.update_self _ _ _
  | held hv => exact absurd rfl hv

theorem quarantined_of_ne_matched {verdict : Verdict} (hverdict : verdict ≠ .matched)
    (h : Observed server mode refused s (some verdict) s') :
    ∃ ev, s'.quarantined server = some ev ∧ ev.mode = mode := by
  cases h with
  | released => exact absurd rfl hverdict
  | lifted => exact absurd rfl hverdict
  | held _ hmode => exact ⟨_, Function.update_self _ _ _, hmode⟩

/-- What is emitted says whether the response is refused, and a refusal is never without it. -/
theorem emitted (h : Observed server mode refused s v s') :
    ∃ evs, s'.emitted = s.emitted ++ evs ∧ (∀ ev ∈ evs, ev.blocked = refused) ∧
      (refused = true → evs ≠ []) := by
  cases h with
  | silent hrefused =>
      exact ⟨[], (List.append_nil _).symm, List.forall_mem_nil _,
        fun htrue => absurd (htrue.symm.trans hrefused) (by decide)⟩
  | released hrefused =>
      exact ⟨[], (List.append_nil _).symm, List.forall_mem_nil _,
        fun htrue => absurd (htrue.symm.trans hrefused) (by decide)⟩
  | reported hrefused hev =>
      exact ⟨[_], rfl, fun ev hmem => List.mem_singleton.mp hmem ▸ hev.trans hrefused.symm,
        fun _ => List.cons_ne_nil _ _⟩
  | lifted hrefused hev =>
      exact ⟨[_], rfl, fun ev hmem => List.mem_singleton.mp hmem ▸ hev.trans hrefused.symm,
        fun _ => List.cons_ne_nil _ _⟩
  | held _ _ hev =>
      exact ⟨[_], rfl, fun ev hmem => List.mem_singleton.mp hmem ▸ hev, fun _ => List.cons_ne_nil _ _⟩

end Observed

/-! ## What a call returns -/

section

variable {hash : Bytes → Bytes} {parseMediaType : Bytes → Option Bytes}
  {gunzip : Bytes → Except Bytes Body} {cfg : GuardConfig} {now : ℤ} {req : Request} {w : Watch}
  {canBlock : Bool} {g : GuardState}

/-- A response that is held is not watched. -/
theorem watched_inspectBuffered {body : Body} {resp : Response} : (inspectBuffered hash gunzip cfg now req w body resp g).1.watched = false := by
  rw [inspectBuffered]
  dsimp only
  split
  · rfl
  · split
    · rfl
    · split
      · rfl
      · rw [inspectDefinitions]
        split
        · rfl
        · split
          · rfl
          · rfl

/-- A response whose body is watched is not refused. -/
theorem refusal_of_watched {resp : Response}
    (h : (inspect hash parseMediaType gunzip cfg now req resp g).1.watched = true) :
    (inspect hash parseMediaType gunzip cfg now req resp g).1.refusal = none := by
  rw [inspect] at h ⊢
  split
  · split
    · split
      · rw [inspectStream]
        split
        · rfl
        · rfl
      · next hbody hw hlists hmedia =>
          simp only [hbody, hw, if_pos hlists, if_neg hmedia, watched_inspectBuffered] at h
          cases h
    · rfl
  · rfl

variable (g g' : GuardState)

theorem unverifiable_fst_eq (reason : EventReason) :
    (unverifiable cfg now req w canBlock reason g).1 =
      (unverifiable cfg now req w canBlock reason g').1 := by
  rw [unverifiable, unverifiable]
  split_ifs
  · rfl
  · rfl

theorem observe_fst_eq (defs : Defs) :
    (observe hash cfg now req w canBlock defs g).1 =
      (observe hash cfg now req w canBlock defs g').1 := by
  rw [observe, observe]
  by_cases hpinned : w.pinned = false
  · rw [if_pos hpinned, if_pos hpinned]
  · rw [if_neg hpinned, if_neg hpinned]
    by_cases hpage : defs.page = true
    · rw [if_pos hpage, if_pos hpage]
      exact unverifiable_fst_eq g g' _
    · rw [if_neg hpage, if_neg hpage]
      cases cfg.check hash req.server defs.bytes with
      | ok => rfl
      | drifted => rfl
      | unknown => rfl

theorem refuseIf_fst_eq {refusal : Refusal} {resp : Response} {r r' : Bool × GuardState}
    (h : r.1 = r'.1) : (refuseIf refusal resp r).1 = (refuseIf refusal resp r').1 := by
  rw [refuseIf, refuseIf, h]

theorem inspectBuffered_fst_eq (body : Body) (resp : Response) :
    (inspectBuffered hash gunzip cfg now req w body resp g).1 =
      (inspectBuffered hash gunzip cfg now req w body resp g').1 := by
  rw [inspectBuffered, inspectBuffered]
  dsimp only
  split
  · rfl
  · split
    · exact refuseIf_fst_eq (unverifiable_fst_eq g g' _)
    · split
      · exact refuseIf_fst_eq (unverifiable_fst_eq g g' _)
      · rw [inspectDefinitions, inspectDefinitions]
        split
        · rfl
        · split
          · exact refuseIf_fst_eq (unverifiable_fst_eq g g' _)
          · exact refuseIf_fst_eq (observe_fst_eq g g' _)

/-- What is forwarded and what is refused depends on the response and the configuration, not on what was
observed before. -/
theorem inspect_fst_eq (resp : Response) :
    (inspect hash parseMediaType gunzip cfg now req resp g).1 =
      (inspect hash parseMediaType gunzip cfg now req resp g').1 := by
  rw [inspect, inspect]
  split
  · split
    · split
      · rw [inspectStream, inspectStream]
        split
        · rfl
        · rfl
      · exact inspectBuffered_fst_eq g g' _ resp
    · rfl
  · rfl

end

end Sanad.Tooldefs
