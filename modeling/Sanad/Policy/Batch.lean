import Sanad.Policy.Stage

/-! # Batches are decided element by element

`policy/stage.go`: the decision point and the approver are arbitrary programs over a state of their own.
To say how often they are asked, they are run with a log of the questions and answers; the log is a state
like any other, so what is shown about the stage with a log is shown about the stage.
-/

namespace Sanad.Policy

open Gateway

/-! ## What the stage is to do -/

/-- A question that was put to a decider, with its answer. -/
inductive Consultation where
  | pdp (input : Input) (answer : Except Bytes Decision)
  | approver (input : Input) (answer : Except Bytes Decision)

/-- What the decision point was asked. -/
def askedPDP (log : List Consultation) : List Input :=
  log.filterMap fun
    | .pdp input _ => some input
    | .approver _ _ => none

/-- What the approver was asked. -/
def askedApprover (log : List Consultation) : List Input :=
  log.filterMap fun
    | .pdp _ _ => none
    | .approver input _ => some input

/-- What the decision point wanted to be reviewed. -/
def wantedReview (log : List Consultation) : List Input :=
  log.filterMap fun
    | .pdp input (.ok d) => if d.effect = .review then some input else none
    | _ => none

section

variable {σ : Type}

/-- A decider that keeps a log. -/
def logged (entry : Input → Except Bytes Decision → Consultation)
    (decider : Input → EStateM Bytes σ Decision) :
    Input → EStateM Bytes (σ × List Consultation) Decision :=
  fun input (w, log) =>
    match decider input w with
    | .ok d w' => .ok d (w', log ++ [entry input (.ok d)])
    | .error e w' => .error e (w', log ++ [entry input (.error e)])

variable (pdp : PDP σ) (approver : Option (Approver σ)) (req : Request) (principal : Principal)

/-- The question for an action. -/
def actionInput (act : Action) : Input where
  principal := principal
  agent := req.agent
  server := req.server
  method := act.method
  tool := act.tool
  delegation := req.delegation
  delegatedScope := req.scope

/-- The answer for an action is to allow it, after a review if the decision point wants one. The state
of the deciders goes from `w` to `w'`. -/
def Allows (input : Input) (w w' : σ) : Prop :=
  (∃ d, pdp input w = .ok d w' ∧ d.allowed = true) ∨
    ∃ d w₁ a d', pdp input w = .ok d w₁ ∧ d.effect = .review ∧ approver = some a ∧
      a input w₁ = .ok d' w' ∧ d'.allowed = true

/-- Every action lies within the delegated scope and is allowed, in order. -/
def AllowedThrough : σ → List Action → σ → Prop
  | w, [], w' => w = w'
  | w, act :: acts, w' =>
    WithinScope req.scope act ∧
      ∃ w₁, Allows pdp approver (actionInput req principal act) w w₁ ∧ AllowedThrough w₁ acts w'

/-- The actions that are decided: those of the request, or a single one without any call. -/
def decidedActions (extract : ActionExtractor) (req : Request) : List Action :=
  if (extract req).length = 0 then [⟨methodNone, []⟩] else extract req

end

/-! ## One action -/

section

variable {σ : Type} {pdp : PDP σ} {approver : Option (Approver σ)} {input : Input} {w w' : σ}

/-- The questions for one action that lies within the scope, and whether it is allowed. -/
inductive Consulted (pdp : PDP σ) (approver : Option (Approver σ)) (input : Input) :
    σ → List Consultation → σ → Bool → Prop
  | failed {w w' : σ} {e : Bytes} (asked : pdp input w = .error e w') :
    Consulted pdp approver input w [.pdp input (.error e)] w' false
  | decided {w w' : σ} {d : Decision} (asked : pdp input w = .ok d w') (final : d.effect ≠ .review) :
    Consulted pdp approver input w [.pdp input (.ok d)] w' d.allowed
  | noApprover {w w' : σ} {d : Decision} (asked : pdp input w = .ok d w') (review : d.effect = .review)
    (none : approver = none) : Consulted pdp approver input w [.pdp input (.ok d)] w' false
  | reviewFailed {w w₁ w' : σ} {d : Decision} {a : Approver σ} {e : Bytes}
    (asked : pdp input w = .ok d w₁) (review : d.effect = .review) (some : approver = some a)
    (answer : a input w₁ = .error e w') :
    Consulted pdp approver input w [.pdp input (.ok d), .approver input (.error e)] w' false
  | reviewed {w w₁ w' : σ} {d d' : Decision} {a : Approver σ} (asked : pdp input w = .ok d w₁)
    (review : d.effect = .review) (some : approver = some a) (answer : a input w₁ = .ok d' w') :
    Consulted pdp approver input w [.pdp input (.ok d), .approver input (.ok d')] w' d'.allowed

theorem Consulted.allows_iff {log : List Consultation} {allowed : Bool}
    (h : Consulted pdp approver input w log w' allowed) (w₁ : σ) :
    Allows pdp approver input w w₁ ↔ allowed = true ∧ w₁ = w' := by
  have hreview : ∀ d : Decision, d.effect = .review → d.allowed = false := by
    intro d hd
    simp [Decision.allowed, hd]
  rw [Allows]
  cases h with
  | failed asked => simp [asked]
  | decided asked final =>
      simp only [asked, EStateM.Result.ok.injEq]
      constructor
      · rintro (⟨d, ⟨rfl, rfl⟩, hallowed⟩ | ⟨d, w₂, a, d', ⟨rfl, -⟩, hd, -⟩)
        · exact ⟨hallowed, rfl⟩
        · exact absurd hd final
      · rintro ⟨hallowed, rfl⟩
        exact .inl ⟨_, ⟨rfl, rfl⟩, hallowed⟩
  | noApprover asked review none =>
      simp [asked, none, hreview _ review]
  | reviewFailed asked review some answer =>
      simp [asked, some, hreview _ review, answer]
  | reviewed asked review some answer =>
      simp only [asked, some, EStateM.Result.ok.injEq, Option.some.injEq]
      constructor
      · rintro (⟨d, ⟨rfl, -⟩, hallowed⟩ | ⟨d, w₂, a, d', ⟨-, rfl⟩, -, rfl, ha, hallowed⟩)
        · rw [hreview _ review] at hallowed
          cases hallowed
        · rw [answer, EStateM.Result.ok.injEq] at ha
          obtain ⟨rfl, rfl⟩ := ha
          exact ⟨hallowed, rfl⟩
      · rintro ⟨hallowed, rfl⟩
        exact .inr ⟨_, _, _, _, ⟨rfl, rfl⟩, review, rfl, answer, hallowed⟩

/-- The decision point is asked once, and the approver once if it wants a review. -/
theorem Consulted.asked {log : List Consultation} {allowed : Bool}
    (h : Consulted pdp approver input w log w' allowed) :
    askedPDP log = [input] ∧
      askedApprover log = if approver.isSome then wantedReview log else [] := by
  cases h with
  | failed asked => simp [askedPDP, askedApprover, wantedReview]
  | decided asked final => simp [askedPDP, askedApprover, wantedReview, final]
  | noApprover asked review none => simp [askedPDP, askedApprover, none]
  | reviewFailed asked review some answer =>
      simp [askedPDP, askedApprover, wantedReview, some, review]
  | reviewed asked review some answer => simp [askedPDP, askedApprover, wantedReview, some, review]

end

section

variable {σ : Type} (pdp : PDP σ) (approver : Option (Approver σ)) (req : Request)
  (principal : Principal) {w : σ} {r : Request}

/-- The decision for an action, from deciders with a log. -/
theorem evaluate_logged (input : Input) (log : List Consultation) :
    ∃ log' w', (∃ d, Consulted pdp approver input w log' w' d.allowed ∧
      evaluate (logged .pdp pdp) (approver.map (logged .approver)) input ((w, log), r) =
        .ok d ((w', log ++ log'), r)) ∨
      (Consulted pdp approver input w log' w' false ∧ ∃ e,
        evaluate (logged .pdp pdp) (approver.map (logged .approver)) input ((w, log), r) =
          .error e ((w', log ++ log'), r)) := by
  cases hpdp : pdp input w with
  | error e w' =>
      refine ⟨_, w', .inr ⟨.failed hpdp, .pdp e, ?_⟩⟩
      simp [evaluate, bind, EStateM.bind, EStateM.onFst, logged, hpdp]
  | ok d w₁ =>
      by_cases hreview : d.effect = .review
      · cases happ : approver with
        | none =>
            refine ⟨_, w₁, .inr ⟨.noApprover hpdp hreview rfl, .noApprover, ?_⟩⟩
            simp [evaluate, bind, EStateM.bind, EStateM.onFst, logged, hpdp, hreview,
              EStateM.liftOption]
        | some a =>
            cases hanswer : a input w₁ with
            | error e w' =>
                refine ⟨_, w', .inr ⟨.reviewFailed hpdp hreview rfl hanswer, .approval e, ?_⟩⟩
                simp [evaluate, bind, EStateM.bind, EStateM.onFst, logged, hpdp, hreview,
                  EStateM.liftOption, hanswer]
            | ok d' w' =>
                refine ⟨_, w', .inl ⟨d', .reviewed hpdp hreview rfl hanswer, ?_⟩⟩
                simp [evaluate, bind, EStateM.bind, EStateM.onFst, logged, hpdp, hreview,
                  EStateM.liftOption, hanswer]
      · refine ⟨_, w₁, .inl ⟨d, .decided hpdp hreview, ?_⟩⟩
        simp [evaluate, bind, EStateM.bind, EStateM.onFst, logged, hpdp, hreview, pure, EStateM.pure]

/-- The loop body on deciders with a log: the scope of the request stays as it is. -/
theorem decideAction_logged (act : Action) (log : List Consultation) (hscope : WithinScope req.scope act) :
    ∃ log' w' r', r'.scope = r.scope ∧
      ((Consulted pdp approver (actionInput req principal act) w log' w' true ∧
        decideAction (logged .pdp pdp) (approver.map (logged .approver)) req principal act
          ((w, log), r) = .ok () ((w', log ++ log'), r')) ∨
      (Consulted pdp approver (actionInput req principal act) w log' w' false ∧ ∃ e,
        decideAction (logged .pdp pdp) (approver.map (logged .approver)) req principal act
          ((w, log), r) = .error e ((w', log ++ log'), r'))) := by
  obtain ⟨log', w', ⟨d, hconsulted, heval⟩ | ⟨hconsulted, e, heval⟩⟩ :=
    evaluate_logged pdp approver (w := w) (r := r) (actionInput req principal act) log
  · refine ⟨log', w', { r with decision := some d }, rfl, ?_⟩
    cases hallowed : d.allowed with
    | true =>
        rw [hallowed] at hconsulted
        refine .inl ⟨hconsulted, ?_⟩
        rw [actionInput] at heval
        simp [decideAction, hscope, bind, EStateM.bind, heval, updateRequest, EStateM.update,
          EStateM.require, hallowed]
    | false =>
        rw [hallowed] at hconsulted
        refine .inr ⟨hconsulted, .denied d.reason, ?_⟩
        rw [actionInput] at heval
        simp [decideAction, hscope, bind, EStateM.bind, heval, updateRequest, EStateM.update,
          EStateM.require, hallowed]
  · refine ⟨log', w', r, rfl, .inr ⟨hconsulted, e, ?_⟩⟩
    rw [actionInput] at heval
    simp [decideAction, hscope, bind, EStateM.bind, heval]

theorem decideAction_outside (act : Action) (log : List Consultation)
    (hscope : ¬ WithinScope req.scope act) :
    ∃ e r', r'.scope = r.scope ∧
      decideAction (logged .pdp pdp) (approver.map (logged .approver)) req principal act ((w, log), r) =
        .error e ((w, log), r') := by
  refine ⟨.denied (.outsideScope act.tool req.scope.tools),
    { r with decision := some ⟨.deny, .outsideScope act.tool req.scope.tools⟩ }, rfl, ?_⟩
  simp [decideAction, hscope, deny, bind, EStateM.bind, updateRequest, EStateM.update,
    EStateM.liftExcept]

/-! ## All actions -/

/-- The questions for a list of actions, up to the first that is not allowed. -/
inductive Course (pdp : PDP σ) (approver : Option (Approver σ)) (req : Request)
    (principal : Principal) : σ → List Action → List Consultation → σ → Bool → Prop
  | done {w : σ} : Course pdp approver req principal w [] [] w true
  | outside {w : σ} {act : Action} {acts : List Action} (scope : ¬ WithinScope req.scope act) :
    Course pdp approver req principal w (act :: acts) [] w false
  | refused {w w' : σ} {act : Action} {acts : List Action} {log : List Consultation}
    (scope : WithinScope req.scope act)
    (consulted : Consulted pdp approver (actionInput req principal act) w log w' false) :
    Course pdp approver req principal w (act :: acts) log w' false
  | allowed {w w₁ w' : σ} {act : Action} {acts : List Action} {log log' : List Consultation}
    {allowed : Bool} (scope : WithinScope req.scope act)
    (consulted : Consulted pdp approver (actionInput req principal act) w log w₁ true)
    (next : Course pdp approver req principal w₁ acts log' w' allowed) :
    Course pdp approver req principal w (act :: acts) (log ++ log') w' allowed

/-- The loop takes a course. -/
theorem decideActions_logged (acts : List Action) (log : List Consultation) :
    ∃ log' w' r', r'.scope = r.scope ∧
      ((Course pdp approver req principal w acts log' w' true ∧
        decideActions (logged .pdp pdp) (approver.map (logged .approver)) req principal acts
          ((w, log), r) = .ok () ((w', log ++ log'), r')) ∨
      (Course pdp approver req principal w acts log' w' false ∧ ∃ e,
        decideActions (logged .pdp pdp) (approver.map (logged .approver)) req principal acts
          ((w, log), r) = .error e ((w', log ++ log'), r'))) := by
  induction acts generalizing w log r with
  | nil => exact ⟨[], w, r, rfl, .inl ⟨.done, by rw [List.append_nil]; rfl⟩⟩
  | cons act acts ih =>
      by_cases hscope : WithinScope req.scope act
      · obtain ⟨log₁, w₁, r₁, hr₁, ⟨hconsulted, heq⟩ | ⟨hconsulted, e, heq⟩⟩ :=
          decideAction_logged pdp approver req principal (w := w) (r := r) act log hscope
        · obtain ⟨log', w', r', hr', hrest⟩ := ih (w := w₁) (r := r₁) (log ++ log₁)
          refine ⟨log₁ ++ log', w', r', hr'.trans hr₁, ?_⟩
          rw [← List.append_assoc]
          rcases hrest with ⟨hcourse, hrun⟩ | ⟨hcourse, e, hrun⟩
          · refine .inl ⟨.allowed hscope hconsulted hcourse, ?_⟩
            simp [decideActions, bind, EStateM.bind, heq, hrun]
          · refine .inr ⟨.allowed hscope hconsulted hcourse, e, ?_⟩
            simp [decideActions, bind, EStateM.bind, heq, hrun]
        · refine ⟨log₁, w₁, r₁, hr₁, .inr ⟨.refused hscope hconsulted, e, ?_⟩⟩
          simp [decideActions, bind, EStateM.bind, heq]
      · obtain ⟨e, r', hr', heq⟩ :=
          decideAction_outside pdp approver req principal (w := w) (r := r) act log hscope
        refine ⟨[], w, r', hr', .inr ⟨.outside hscope, e, ?_⟩⟩
        simp [decideActions, bind, EStateM.bind, heq]

end

section

variable {σ : Type} {pdp : PDP σ} {approver : Option (Approver σ)} {principal : Principal} {w w' : σ}
  {req : Request} {acts : List Action} {log : List Consultation} {allowed : Bool}

/-- The actions are all allowed exactly if the course does not end before. -/
theorem Course.allowed_iff (h : Course pdp approver req principal w acts log w' allowed) :
    allowed = true ↔ ∃ w₁, AllowedThrough pdp approver req principal w acts w₁ := by
  induction h with
  | done => simp [AllowedThrough]
  | outside scope => simp [AllowedThrough, scope]
  | refused scope consulted => simp [AllowedThrough, consulted.allows_iff]
  | allowed scope consulted next ih => simp [AllowedThrough, scope, consulted.allows_iff, ih]

theorem askedPDP_append (log log' : List Consultation) :
    askedPDP (log ++ log') = askedPDP log ++ askedPDP log' := List.filterMap_append ..

theorem askedApprover_append (log log' : List Consultation) :
    askedApprover (log ++ log') = askedApprover log ++ askedApprover log' := List.filterMap_append ..

theorem wantedReview_append (log log' : List Consultation) :
    wantedReview (log ++ log') = wantedReview log ++ wantedReview log' := List.filterMap_append ..

/-- The approver is asked once for each decision to review. -/
theorem Course.askedApprover_eq (h : Course pdp approver req principal w acts log w' allowed) :
    askedApprover log = if approver.isSome then wantedReview log else [] := by
  induction h with
  | done => simp [askedApprover, wantedReview]
  | outside => simp [askedApprover, wantedReview]
  | refused scope consulted => exact consulted.asked.2
  | allowed scope consulted next ih =>
      rw [askedApprover_append, wantedReview_append, consulted.asked.2, ih]
      split
      · rfl
      · rfl

/-- An action that is not allowed after others that are: where the course ends. -/
structure StoppedAt (pdp : PDP σ) (approver : Option (Approver σ)) (req : Request)
    (principal : Principal) (w : σ) (passed : List Action) (act : Action) : Prop where
  passes : ∃ w₁, AllowedThrough pdp approver req principal w passed w₁
  stops : ¬ ∃ w₁, AllowedThrough pdp approver req principal w (passed ++ [act]) w₁

/-- The decision point is asked once for each action up to the first that is not allowed, and not for
that one if it lies outside of the scope. -/
theorem Course.askedPDP_eq (h : Course pdp approver req principal w acts log w' allowed) :
    (allowed = true → askedPDP log = acts.map (actionInput req principal)) ∧
    (allowed = false → ∃ passed act rest, acts = passed ++ act :: rest ∧
      StoppedAt pdp approver req principal w passed act ∧
      askedPDP log = (if WithinScope req.scope act then passed ++ [act] else passed).map
        (actionInput req principal)) := by
  induction h with
  | done => simp [askedPDP]
  | @outside w act acts scope =>
      refine ⟨by simp, fun _ => ⟨[], act, acts, rfl, ⟨⟨w, rfl⟩, ?_⟩, ?_⟩⟩
      · simp [AllowedThrough, scope]
      · rw [if_neg scope]
        rfl
  | @refused w w' act acts log scope consulted =>
      refine ⟨by simp, fun _ => ⟨[], act, acts, rfl, ⟨⟨w, rfl⟩, ?_⟩, ?_⟩⟩
      · simp [AllowedThrough, consulted.allows_iff]
      · rw [if_pos scope, consulted.asked.1]
        rfl
  | @allowed w w₁ w' act acts log log' allowed scope consulted next ih =>
      rw [askedPDP_append, consulted.asked.1]
      refine ⟨fun h => by rw [ih.1 h]; rfl, fun h => ?_⟩
      obtain ⟨passed, last, rest, rfl, ⟨⟨w₂, hpasses⟩, hstops⟩, hasked⟩ := ih.2 h
      refine ⟨act :: passed, last, rest, rfl, ⟨⟨w₂, scope, w₁, ?_, hpasses⟩, ?_⟩, ?_⟩
      · exact (consulted.allows_iff w₁).mpr ⟨rfl, rfl⟩
      · rintro ⟨w₃, -, w₄, hallows, hrest⟩
        obtain ⟨-, rfl⟩ := (consulted.allows_iff w₄).mp hallows
        exact hstops ⟨w₃, hrest⟩
      · rw [hasked]
        split
        · rfl
        · rfl

end

/-! ## The scope -/

/-- The scope that is granted for actions: what was delegated, narrowed to the tools that are requested,
each once and in the order in which they come first. -/
structure Granted (delegated : Scope) (requested : List Bytes) (granted : Scope) : Prop where
  none : requested = [] → granted = delegated
  mem_iff : requested ≠ [] → ∀ tool, tool ∈ granted.tools ↔ tool ∈ requested
  ordered : requested ≠ [] →
    granted.tools.Pairwise fun tool tool' => requested.idxOf tool < requested.idxOf tool'
  budget : granted.budget = delegated.budget

/-- The tools that actions request. -/
def requestedTools (actions : List Action) : List Bytes :=
  (actions.map (·.tool)).filter (· ≠ [])

theorem mem_requestedTools {actions : List Action} {tool : Bytes} :
    tool ∈ requestedTools actions ↔ tool ≠ [] ∧ ∃ act ∈ actions, act.tool = tool := by
  simp [requestedTools, and_comm]

theorem distinct_concat (actions : List Action) (act : Action) :
    distinct (actions ++ [act]) =
      if act.tool ≠ [] ∧ act.tool ∉ distinct actions then distinct actions ++ [act.tool]
      else distinct actions := by
  rw [distinct, List.foldl_append]
  rfl

/-- Each tool stands where it is first requested. -/
theorem distinct_ordered (actions : List Action) :
    (distinct actions).Pairwise fun tool tool' =>
      (requestedTools actions).idxOf tool < (requestedTools actions).idxOf tool' := by
  induction actions using List.reverseRecOn with
  | nil => simp [distinct]
  | append_singleton actions act ih =>
      have hmem : ∀ tool, tool ∈ distinct actions ↔ tool ∈ requestedTools actions := fun tool =>
        mem_distinct.trans mem_requestedTools.symm
      obtain ⟨last, hlast⟩ : ∃ last,
          requestedTools (actions ++ [act]) = requestedTools actions ++ last := by
        rw [requestedTools, List.map_append, List.filter_append]
        exact ⟨_, rfl⟩
      -- the action added last does not move where the others stand
      have hidx : ∀ tool ∈ distinct actions, (requestedTools (actions ++ [act])).idxOf tool =
          (requestedTools actions).idxOf tool := by
        intro tool htool
        rw [hlast, List.idxOf_append_of_mem ((hmem tool).mp htool)]
      have hold : (distinct actions).Pairwise fun tool tool' =>
          (requestedTools (actions ++ [act])).idxOf tool <
            (requestedTools (actions ++ [act])).idxOf tool' := by
        refine ih.imp_of_mem fun htool htool' hlt => ?_
        rwa [hidx _ htool, hidx _ htool']
      rw [distinct_concat]
      split
      · next hnew =>
          refine List.pairwise_append.mpr ⟨hold, List.pairwise_singleton _ _, ?_⟩
          intro tool htool tool' htool'
          obtain rfl := List.mem_singleton.mp htool'
          rw [hidx tool htool, hlast, List.idxOf_append_of_notMem (mt (hmem _).mpr hnew.2)]
          have := List.idxOf_lt_length_of_mem ((hmem tool).mp htool)
          omega
      · exact hold

theorem granted_narrow (delegated : Scope) (actions : List Action) :
    Granted delegated (requestedTools actions) (narrow delegated (distinct actions)) := by
  have hmem : ∀ tool, tool ∈ distinct actions ↔ tool ∈ requestedTools actions := fun tool =>
    mem_distinct.trans mem_requestedTools.symm
  have hnil : distinct actions = [] ↔ requestedTools actions = [] := by
    rw [List.eq_nil_iff_forall_not_mem, List.eq_nil_iff_forall_not_mem]
    exact forall_congr' fun tool => not_congr (hmem tool)
  by_cases hempty : requestedTools actions = []
  · rw [narrow, if_pos (hnil.mpr hempty)]
    exact ⟨fun _ => rfl, fun h => absurd hempty h, fun h => absurd hempty h, rfl⟩
  · rw [narrow, if_neg (mt hnil.mp hempty)]
    exact ⟨fun h => absurd h hempty, fun _ => hmem, fun _ => distinct_ordered actions, rfl⟩

/-! ## The stage -/

section

variable {σ : Type} {pdp : PDP σ} {approver : Option (Approver σ)} {extract : ActionExtractor}
  {w w' : σ} {req r' : Request} {principal : Principal}

/-- When all actions are allowed, the stage narrows the scope. -/
theorem handle_stage_of_ok (hprincipal : req.principal = some principal)
    (hrun : decideActions pdp approver req principal (decidedActions extract req) (w, req) =
      .ok () (w', r')) (hscope : r'.scope = req.scope) :
    (stage pdp approver extract).handle (w, req) =
      .ok () (w', { r' with scope := narrow req.scope (distinct (extract req)) }) := by
  rw [decidedActions] at hrun
  simp only [stage, request, bind, EStateM.bind, EStateM.read, EStateM.liftOption, hprincipal, hrun]
  by_cases hnil : distinct (extract req) = []
  · rw [if_neg (by simp [hnil]), narrow, if_pos hnil, ← hscope]
    rfl
  · rw [if_pos (List.length_pos_iff.mpr hnil), narrow, if_neg hnil]
    rfl

theorem handle_stage_of_error {e : PolicyError} (hprincipal : req.principal = some principal)
    (hrun : decideActions pdp approver req principal (decidedActions extract req) (w, req) =
      .error e (w', r')) : (stage pdp approver extract).handle (w, req) = .error e (w', r') := by
  rw [decidedActions] at hrun
  simp only [stage, request, bind, EStateM.bind, EStateM.read, EStateM.liftOption, hprincipal, hrun]

end

/-- The stage does what it is to do with the actions of a request. It passes exactly if every action, in
order and with the state of the deciders threaded through, lies within the delegated scope and is
allowed. The decision point is asked about each action up to the first that fails, unless that one lies
outside of the scope; the approver is asked about each decision to review. A request that does not pass
keeps its scope. -/
def DecidesBatch {σ : Type} (pdp : PDP σ) (approver : Option (Approver σ))
    (extract : ActionExtractor) (w : σ) (req : Request) (principal : Principal) : Prop :=
  ∃ log w' req',
    askedApprover log = (if approver.isSome then wantedReview log else []) ∧
    (((∃ w₁, AllowedThrough pdp approver req principal w (decidedActions extract req) w₁) ∧
      (stage (logged .pdp pdp) (approver.map (logged .approver)) extract).handle ((w, []), req) =
        .ok () ((w', log), req') ∧
      askedPDP log = (decidedActions extract req).map (actionInput req principal) ∧
      Granted req.scope (requestedTools (extract req)) req'.scope) ∨
    ((¬ ∃ w₁, AllowedThrough pdp approver req principal w (decidedActions extract req) w₁) ∧
      (∃ e, (stage (logged .pdp pdp) (approver.map (logged .approver)) extract).handle
        ((w, []), req) = .error e ((w', log), req')) ∧
      (∃ passed act rest, decidedActions extract req = passed ++ act :: rest ∧
        StoppedAt pdp approver req principal w passed act ∧
        askedPDP log = (if WithinScope req.scope act then passed ++ [act] else passed).map
          (actionInput req principal)) ∧
      req'.scope = req.scope))

/-- The policy stage with any decision point, approver and extractor, on any request of an authenticated
principal. -/
theorem stage_decides_batch {σ : Type} (pdp : PDP σ) (approver : Option (Approver σ))
    (extract : ActionExtractor) (w : σ) (req : Request) (principal : Principal)
    (hprincipal : req.principal = some principal) :
    DecidesBatch pdp approver extract w req principal := by
  obtain ⟨log, w', r', hr', hcourse⟩ := decideActions_logged pdp approver req principal (w := w)
    (r := req) (decidedActions extract req) []
  rw [List.nil_append] at hcourse
  rcases hcourse with ⟨hcourse, hrun⟩ | ⟨hcourse, e, hrun⟩
  · exact ⟨log, w', { r' with scope := narrow req.scope (distinct (extract req)) },
      hcourse.askedApprover_eq, .inl ⟨hcourse.allowed_iff.mp rfl,
        handle_stage_of_ok hprincipal hrun hr', hcourse.askedPDP_eq.1 rfl, granted_narrow _ _⟩⟩
  · have hstopped : ¬ ∃ w₁, AllowedThrough pdp approver req principal w (decidedActions extract req) w₁ :=
      fun h => Bool.false_ne_true (hcourse.allowed_iff.mpr h)
    exact ⟨log, w', r', hcourse.askedApprover_eq, .inr ⟨hstopped,
      ⟨e, handle_stage_of_error hprincipal hrun⟩, hcourse.askedPDP_eq.2 rfl, hr'⟩⟩

/-- A batch of three calls, the last of which goes to a review. -/
theorem stage_decides_batch_counting :
    let principal : Principal := ⟨[1], [2], .org, false, 0⟩
    let call (tool : Bytes) : Mcprpc.Call := ⟨Bytes.ascii "tools/call", tool, false⟩
    let req : Request :=
      { server := [3], target := none, http := none, body := none, calls := [call [4], call [5], call [4]],
        principal := some principal, agent := none, decision := none, scope := ⟨[[4], [5]], none⟩,
        delegation := none, passport := none }
    let pdp : PDP ℕ := fun _ n => .ok ⟨if n < 2 then .allow else .review, .text []⟩ (n + 1)
    let approver : Approver ℕ := fun _ n => .ok ⟨.allow, .text []⟩ n
    req.principal = some principal ∧ DecidesBatch pdp (some approver) mcpActions 0 req principal ∧
      (stage pdp (some approver) mcpActions).handle (0, req) =
        .ok () (3, { req with decision := some ⟨.allow, .text []⟩, scope := ⟨[[4], [5]], none⟩ }) :=
  ⟨rfl, stage_decides_batch _ _ _ _ _ _ rfl, rfl⟩

end Sanad.Policy
