import Sanad.Common.Json.Record
import Sanad.Mcprpc

/-! # Which tool calls of a body are read

A body with exact member names is read member by member as its value says. Whether every tool call
of it becomes a call then depends on one thing: a body that does not decode as a whole, because it
is nested too deeply or because some element of a batch is of another shape, gives no calls at all.
-/

namespace Sanad.Mcprpc

open Json

/-! ## Messages

Each field of a message takes the values of its name one after the other, whatever the case.
-/

theorem fieldOf_rpcFields (key : Bytes) :
    fieldOf rpcFields key =
      if foldName (Bytes.ascii "method") = foldName key then some .method
      else if foldName (Bytes.ascii "id") = foldName key then some .id
      else if foldName (Bytes.ascii "params") = foldName key then some .params
      else none := by
  rw [fieldOf_eq_find (by decide +kernel), rpcFields]
  split
  · next h => simp [h]
  · next h =>
      split
      · next h' => simp [h, h']
      · next h' =>
          split
          · next h'' => simp [h, h', h'']
          · next h'' => simp [h, h', h'']

/-- Each field of a message takes the variants of its name one after the other. -/
theorem foldlM_decodeMember_variants (ms : List (StringLit × Json)) (msg : RpcMessage) :
    ms.foldlM RpcMessage.decodeMember msg =
      ((variants (Bytes.ascii "method") ms).foldlM (fun _ v => decodeString v) msg.method).map
        fun method => ⟨method, (variants (Bytes.ascii "id") ms).getLast?.or msg.id,
          (variants (Bytes.ascii "params") ms).getLast?.or msg.params⟩ := by
  have hor : ∀ (v : Json) (vs : List Json) (o : Option Json),
      (v :: vs).getLast?.or o = vs.getLast?.or (some v) := by
    intro v vs o
    rw [List.getLast?_cons]
    cases vs.getLast? <;> rfl
  induction ms generalizing msg with
  | nil => rfl
  | cons m ms ih =>
      rw [List.foldlM_cons, RpcMessage.decodeMember, fieldOf_rpcFields]
      by_cases hmethod : foldName (Bytes.ascii "method") = foldName (unquote m.1)
      · have hid : ¬foldName (Bytes.ascii "id") = foldName (unquote m.1) := by
          rw [← hmethod]
          decide +kernel
        have hparams : ¬foldName (Bytes.ascii "params") = foldName (unquote m.1) := by
          rw [← hmethod]
          decide +kernel
        rw [if_pos hmethod, variants_cons_pos hmethod, variants_cons_neg hid,
          variants_cons_neg hparams, List.foldlM_cons]
        cases hdec : decodeString m.2 with
        | none => simp
        | some method => simp [ih]
      · rw [if_neg hmethod, variants_cons_neg hmethod]
        by_cases hid : foldName (Bytes.ascii "id") = foldName (unquote m.1)
        · have hparams : ¬foldName (Bytes.ascii "params") = foldName (unquote m.1) := by
            rw [← hid]
            decide +kernel
          rw [if_pos hid, variants_cons_pos hid, variants_cons_neg hparams, hor]
          exact ih _
        · rw [if_neg hid, variants_cons_neg hid]
          by_cases hparams : foldName (Bytes.ascii "params") = foldName (unquote m.1)
          · rw [if_pos hparams, variants_cons_pos hparams, hor]
            exact ih _
          · rw [if_neg hparams, variants_cons_neg hparams]
            exact ih _

theorem foldlM_decodeParam_variants (ps : List (StringLit × Json)) (old : Option Bytes) :
    ps.foldlM decodeParam old =
      (variants (Bytes.ascii "name") ps).foldlM (fun _ v => decodeString v) old := by
  induction ps generalizing old with
  | nil => rfl
  | cons m ps ih =>
      rw [List.foldlM_cons, decodeParam, fieldOf_single]
      by_cases hname : foldName (Bytes.ascii "name") = foldName (unquote m.1)
      · rw [if_pos hname, variants_cons_pos hname, List.foldlM_cons]
        cases decodeString m.2 with
        | none => rfl
        | some name => exact ih name
      · rw [if_neg hname, variants_cons_neg hname]
        exact ih old

/-! ## Messages with exact names -/

/-- What a member decodes to, or what the field held before when there is no such member. -/
def decodeOr (old : Option Bytes) : Option Json → Option (Option Bytes)
  | some v => decodeString v
  | none => some old

theorem foldlM_toList (o : Option Json) (old : Option Bytes) :
    o.toList.foldlM (fun _ v => decodeString v) old = decodeOr old o := by
  cases o with
  | none => rfl
  | some v => exact bind_pure (decodeString v)

theorem foldlM_decodeMember {ms : List (StringLit × Json)}
    (h : ExactNames (rpcFields.map Prod.fst) ms) (msg : RpcMessage) :
    ms.foldlM RpcMessage.decodeMember msg =
      (decodeOr msg.method (member (Bytes.ascii "method") ms)).map fun s =>
        ⟨s, (member (Bytes.ascii "id") ms).or msg.id,
          (member (Bytes.ascii "params") ms).or msg.params⟩ := by
  have hlast : ∀ o : Option Json, o.toList.getLast? = o := by
    intro o
    cases o <;> rfl
  rw [foldlM_decodeMember_variants, h.variants_eq (by simp [rpcFields]),
    h.variants_eq (by simp [rpcFields]), h.variants_eq (by simp [rpcFields]), hlast, hlast,
    foldlM_toList]

theorem foldlM_decodeParam {ms : List (StringLit × Json)} (h : ExactNames [Bytes.ascii "name"] ms)
    (old : Option Bytes) :
    ms.foldlM decodeParam old = decodeOr old (member (Bytes.ascii "name") ms) := by
  rw [foldlM_decodeParam_variants, h.variants_eq List.mem_cons_self, foldlM_toList]

/-! ## The messages of a body

What the body says, read off its value: the message objects, which of them are tool calls, and the
tool each names.
-/

/-- The members of an object. -/
def asObject : Json → Option (List (StringLit × Json))
  | .object ms => some ms
  | _ => none

/-- The message objects of a body: the body itself, or the elements of a batch. -/
def messages : Json → List (List (StringLit × Json))
  | .object ms => [ms]
  | .array vs => vs.filterMap asObject
  | _ => []

/-- The `method` member is the string "tools/call". -/
def isToolsCall (ms : List (StringLit × Json)) : Bool :=
  match member (Bytes.ascii "method") ms with
  | some (.string lit) => unquote lit = methodToolsCall
  | _ => false

/-- The member `name` of the `params` of a message. -/
def toolName (ms : List (StringLit × Json)) : Option Bytes :=
  match member (Bytes.ascii "params") ms with
  | some (.object ps) =>
    match member (Bytes.ascii "name") ps with
    | some (.string lit) => some (unquote lit)
    | _ => none
  | _ => none

/-- The calls with method "tools/call" are, in order, those of the given message objects, each with
the tool that its message names. -/
def Corresponds (calls : List Call) (objs : List (List (StringLit × Json))) : Prop :=
  List.Forall₂ (fun call ms => toolName ms = some call.tool)
    (calls.filter fun call => call.method = methodToolsCall) (objs.filter isToolsCall)

/-- The member names that decide how a message is read. -/
def memberNames : List Bytes :=
  [Bytes.ascii "method", Bytes.ascii "id", Bytes.ascii "params", Bytes.ascii "name"]

/-- Every object within the value has exact names. -/
def ExactValue (v : Json) : Prop := ∀ ms ∈ objects v, ExactNames memberNames ms

instance (v : Json) : Decidable (ExactValue v) :=
  inferInstanceAs (Decidable (∀ ms ∈ objects v, ExactNames memberNames ms))

theorem Corresponds.append {calls calls' : List Call} {objs objs' : List (List (StringLit × Json))}
    (h : Corresponds calls objs) (h' : Corresponds calls' objs') :
    Corresponds (calls ++ calls') (objs ++ objs') := by
  rw [Corresponds, List.filter_append, List.filter_append]
  exact List.rel_append h h'

theorem corresponds_nil : Corresponds [] [] := .nil

/-- A message that is no tool call, and what may come of it. -/
theorem corresponds_of_not {call : Option Call} {ms : List (StringLit × Json)}
    (hcall : ∀ c ∈ call, c.method ≠ methodToolsCall) (hms : isToolsCall ms = false) :
    Corresponds call.toList [ms] := by
  have hfilter : (call.toList.filter fun c => c.method = methodToolsCall) = [] := by
    rw [List.filter_eq_nil_iff]
    intro c hc
    simpa using hcall c (Option.mem_toList.mp hc)
  rw [Corresponds, hfilter, List.filter_cons_of_neg (by simp [hms])]
  exact .nil

theorem corresponds_of_toolName {call : Call} {ms : List (StringLit × Json)}
    (hcall : call.method = methodToolsCall) (hms : isToolsCall ms = true)
    (htool : toolName ms = some call.tool) : Corresponds [call] [ms] := by
  rw [Corresponds, List.filter_cons_of_pos (by simp [hcall]), List.filter_cons_of_pos hms]
  exact .cons htool .nil

/-- The tool of a decoded call is the one its message names. -/
theorem toolName_of_decodeParams {ms : List (StringLit × Json)} {name : Bytes}
    (hnames : ∀ m ∈ ms, ExactValue m.2)
    (h : decodeParams (member (Bytes.ascii "params") ms) = some (some name)) :
    toolName ms = some name := by
  cases hparams : member (Bytes.ascii "params") ms with
  | none => rw [hparams] at h; cases h
  | some p =>
      rw [hparams] at h
      obtain ⟨m, hm, rfl⟩ := mem_of_member hparams
      rw [toolName, hparams]
      cases hp : m.2 with
      | object ps =>
          have hexact : ExactNames memberNames ps := by
            refine hnames m hm ps ?_
            rw [hp, objects]
            exact List.mem_cons_self
          rw [hp, decodeParams, foldlM_decodeParam (hexact.mono (by simp [memberNames]))] at h
          cases hname : member (Bytes.ascii "name") ps with
          | none => rw [hname] at h; cases h
          | some v =>
              rw [hname, decodeOr] at h
              cases v with
              | string lit =>
                  cases h
                  simp [hname]
              | _ => cases h
      | _ => rw [hp] at h; cases h

/-- Whether a decoded message is a tool call shows in its method. -/
theorem isToolsCall_eq {ms : List (StringLit × Json)} {method : Option Bytes}
    (h : decodeOr none (member (Bytes.ascii "method") ms) = some method) :
    isToolsCall ms = decide (method = some methodToolsCall) := by
  rw [isToolsCall]
  cases hmem : member (Bytes.ascii "method") ms with
  | none =>
      rw [hmem] at h
      cases h
      rfl
  | some v =>
      rw [hmem] at h
      cases v with
      | null =>
          cases h
          rfl
      | string lit =>
          cases h
          simp
      | _ => cases h

/-- One element: what it decodes to gives a call exactly when it is a tool call. -/
theorem corresponds_of_decode {v : Json} (hnames : ExactValue v) {msg : RpcMessage}
    (hdec : RpcMessage.decode v = some msg) {call : Option Call} (hcall : msg.call = .ok call) :
    Corresponds call.toList (asObject v).toList := by
  cases v with
  | null =>
      cases hdec
      cases hcall
      exact corresponds_nil
  | object ms =>
      have hms : ExactNames memberNames ms := hnames ms (by rw [objects]; exact List.mem_cons_self)
      have hvalues : ∀ m ∈ ms, ExactValue m.2 := by
        intro m hm ms' hms'
        refine hnames ms' ?_
        rw [objects]
        exact List.mem_cons_of_mem _ (objects_subset_of_mem_members hm hms')
      rw [RpcMessage.decode, foldlM_decodeMember (hms.mono (by simp [memberNames, rpcFields]))]
        at hdec
      obtain ⟨method, hmethod, rfl⟩ := Option.map_eq_some_iff.mp hdec
      have htools := isToolsCall_eq hmethod
      rw [RpcMessage.call] at hcall
      cases method with
      | none =>
          cases hcall
          exact corresponds_of_not (by simp) htools
      | some method =>
          by_cases hcalls : method = methodToolsCall
          · simp only [hcalls, ne_eq, not_true_eq_false, if_false] at hcall
            split at hcall
            · next name hparams =>
                rw [RpcMessage.zero, Option.or_none] at hparams
                -- an empty name is refused
                split at hcall
                · cases hcall
                · cases hcall
                  rw [hcalls, decide_eq_true rfl] at htools
                  exact corresponds_of_toolName rfl htools
                    (toolName_of_decodeParams hvalues hparams)
            · cases hcall
          · simp only [ne_eq, hcalls, not_false_eq_true, if_true] at hcall
            cases hcall
            refine corresponds_of_not (by simpa using hcalls) ?_
            simpa [hcalls] using htools
  | _ => cases hdec

/-- A batch, element by element. -/
theorem corresponds_of_batch {vs : List Json} (hnames : ∀ v ∈ vs, ExactValue v) {msgs : List RpcMessage}
    (hdec : vs.mapM RpcMessage.decode = some msgs) {i : ℕ} {calls : List Call}
    (hcalls : batchCalls i msgs = .ok calls) : Corresponds calls (vs.filterMap asObject) := by
  induction vs generalizing msgs i calls with
  | nil =>
      cases hdec
      cases hcalls
      exact corresponds_nil
  | cons v vs ih =>
      rw [List.mapM_cons] at hdec
      obtain ⟨msg, hmsg, hdec⟩ := Option.bind_eq_some_iff.mp hdec
      obtain ⟨rest, hrest, hdec⟩ := Option.bind_eq_some_iff.mp hdec
      cases hdec
      rw [batchCalls, Except.bind_eq_ok_iff] at hcalls
      obtain ⟨first, hfirst, hcalls⟩ := hcalls
      obtain ⟨later, hlater, hcalls⟩ := Except.bind_eq_ok_iff.mp hcalls
      rw [Except.mapError_eq_ok_iff] at hfirst
      cases hcalls
      have hobjs : (v :: vs).filterMap asObject = (asObject v).toList ++ vs.filterMap asObject := by
        cases hv : asObject v <;> simp [hv]
      rw [hobjs]
      exact (corresponds_of_decode (hnames v List.mem_cons_self) hmsg hfirst).append
        (ih (fun v' hv' => hnames v' (List.mem_cons_of_mem v hv')) hrest hlater)

/-! ## When every tool call is read -/

/-- A batch element that decodes into a message: `null`, or an object whose `method`, if it has one,
is a string or `null`. -/
def decodable : Json → Bool
  | .null => true
  | .object ms => (decodeOr none (member (Bytes.ascii "method") ms)).isSome
  | _ => false

/-- The whole body decodes: it is not nested too deeply, and when it is a batch every element of it
is decodable. -/
def Decodes (v : Json) : Prop :=
  v.depth ≤ maxNestingDepth ∧ ∀ vs, v = .array vs → ∀ e ∈ vs, decodable e = true

theorem isSome_decode {v : Json} (hnames : ExactValue v) :
    (RpcMessage.decode v).isSome = decodable v := by
  cases v with
  | object ms =>
      have hms : ExactNames memberNames ms := hnames ms (by rw [objects]; exact List.mem_cons_self)
      rw [RpcMessage.decode, foldlM_decodeMember (hms.mono (by simp [memberNames, rpcFields]))]
      exact Option.isSome_map
  | _ => rfl

theorem isSome_mapM_decode {vs : List Json} (hnames : ∀ v ∈ vs, ExactValue v) :
    (vs.mapM RpcMessage.decode).isSome = vs.all decodable := by
  induction vs with
  | nil => rfl
  | cons v vs ih =>
      have hv := isSome_decode (hnames v List.mem_cons_self)
      have hvs := ih fun v' hv' => hnames v' (List.mem_cons_of_mem v hv')
      rw [List.mapM_cons, List.all_cons, ← hv, ← hvs]
      cases RpcMessage.decode v <;> cases vs.mapM RpcMessage.decode <;> rfl

/-- `Parse` on the value of the body. -/
def callsOf (v : Json) : Except ParseError (List Call) :=
  if v.depth ≤ maxNestingDepth then
    match v with
    | .object ms =>
      match RpcMessage.decode (.object ms) with
      | none => .ok []
      | some msg => do
        let call ← msg.call
        .ok call.toList
    | .array vs =>
      match vs.mapM RpcMessage.decode with
      | none => .ok []
      | some msgs => batchCalls 0 msgs
    | _ => .ok []
  else .ok []

theorem parse_scalar {v : Json} {body : Bytes} (hdoc : Document v body)
    (harray : ∀ vs, v ≠ .array vs) (hobject : ∀ ms, v ≠ .object ms) : parse body = .ok [] := by
  unfold parse
  dsimp only
  cases htrim : Utf8.trimSpace body with
  | nil => rfl
  | cons c t =>
      obtain ⟨hbrace, hbracket⟩ := trimSpace_scalar hdoc harray hobject htrim
      simp only [if_neg hbrace, if_neg hbracket]

theorem callsOf_scalar {v : Json} (harray : ∀ vs, v ≠ .array vs) (hobject : ∀ ms, v ≠ .object ms) :
    callsOf v = .ok [] := by
  rw [callsOf, ite_self]
  · exact hobject
  · exact harray

theorem parse_eq {v : Json} {body : Bytes} (hdoc : Document v body) : parse body = callsOf v := by
  cases v with
  | array vs =>
      obtain ⟨t, htrim, hvalue⟩ := trimSpace_array hdoc
      unfold parse
      dsimp only
      rw [htrim, hvalue, callsOf]
      by_cases hdepth : (Json.array vs).depth ≤ maxNestingDepth
      · simp only [if_pos hdepth]
        rfl
      · simp only [if_neg hdepth]
        rfl
  | object ms =>
      obtain ⟨t, htrim, hvalue⟩ := trimSpace_object hdoc
      unfold parse
      dsimp only
      rw [htrim, hvalue, callsOf]
      by_cases hdepth : (Json.object ms).depth ≤ maxNestingDepth
      · simp only [if_pos hdepth]
        rfl
      · simp only [if_neg hdepth]
        rfl
  | _ =>
      rw [parse_scalar hdoc (by intro vs h; cases h) (by intro ms h; cases h),
        callsOf_scalar (by intro vs h; cases h) (by intro ms h; cases h)]

theorem isToolsCall_of_decodeOr {ms : List (StringLit × Json)}
    (h : decodeOr none (member (Bytes.ascii "method") ms) = none) : isToolsCall ms = false := by
  rw [isToolsCall]
  cases hmem : member (Bytes.ascii "method") ms with
  | none => rfl
  | some v =>
      rw [hmem] at h
      cases v with
      | string lit => cases h
      | _ => rfl

theorem ExactValue.of_mem {v : Json} {vs : List Json} (h : ExactValue (.array vs)) (hv : v ∈ vs) :
    ExactValue v := by
  intro ms hms
  refine h ms ?_
  rw [objects]
  exact objects_subset_of_mem_elems hv hms

/-- A body that decodes as a whole is read correctly. -/
theorem corresponds_of_decodes {v : Json} (hnames : ExactValue v) (hdec : Decodes v)
    {calls : List Call} (hcalls : callsOf v = .ok calls) : Corresponds calls (messages v) := by
  cases v with
  | object ms =>
      rw [callsOf, if_pos hdec.1] at hcalls
      split at hcalls
      · next hnone =>
          -- an object that is no message is taken to have no calls, and its method is no string
          cases hcalls
          have hmethod := isSome_decode hnames
          rw [hnone, decodable] at hmethod
          have hnot : isToolsCall ms = false :=
            isToolsCall_of_decodeOr (Option.not_isSome_iff_eq_none.mp (by simp [← hmethod]))
          have hcall : ∀ c ∈ (none : Option Call), c.method ≠ methodToolsCall := by
            rintro c ⟨⟩
          exact corresponds_of_not hcall hnot
      · next msg hmsg =>
          obtain ⟨call, hcall, hcalls⟩ := Except.bind_eq_ok_iff.mp hcalls
          cases hcalls
          exact corresponds_of_decode hnames hmsg hcall
  | array vs =>
      have hexact : ∀ v ∈ vs, ExactValue v := fun v hv => hnames.of_mem hv
      have hsome := isSome_mapM_decode hexact
      rw [List.all_eq_true.mpr (hdec.2 vs rfl)] at hsome
      rw [callsOf, if_pos hdec.1] at hcalls
      split at hcalls
      · next hnone =>
          rw [hnone] at hsome
          cases hsome
      · next msgs hmsgs => exact corresponds_of_batch hexact hmsgs hcalls
  | _ =>
      rw [callsOf_scalar (by intro vs h; cases h) (by intro ms h; cases h)] at hcalls
      cases hcalls
      exact corresponds_nil

/-- A body that does not decode as a whole gives no calls at all. -/
theorem callsOf_of_not_decodes {v : Json} (hnames : ExactValue v) (hdec : ¬Decodes v) :
    callsOf v = .ok [] := by
  by_cases hdepth : v.depth ≤ maxNestingDepth
  · have hbatch : ∃ vs, v = .array vs ∧ vs.all decodable = false := by
      rw [Decodes, not_and] at hdec
      have := hdec hdepth
      simp only [not_forall] at this
      obtain ⟨vs, rfl, e, he, hne⟩ := this
      refine ⟨vs, rfl, Bool.eq_false_iff.mpr fun hall => hne (List.all_eq_true.mp hall e he)⟩
    obtain ⟨vs, rfl, hall⟩ := hbatch
    have hnone := isSome_mapM_decode fun v hv => hnames.of_mem hv
    rw [hall, Option.isSome_eq_false_iff, Option.isNone_iff_eq_none] at hnone
    rw [callsOf, if_pos hdepth, hnone]
  · unfold callsOf
    rw [if_neg hdepth]

/-- For every body that is a JSON document with exact names: if `Parse` succeeds, then its calls
with method "tools/call" are the tool calls of the body, in order and each with its tool, if and
only if the body contains no tool call or decodes as a whole. -/
theorem parse_reads_tool_calls_iff {v : Json} {body : Bytes} (hdoc : Document v body)
    (hnames : ExactValue v) :
    (∀ calls, parse body = .ok calls → Corresponds calls (messages v)) ↔
      (∀ ms ∈ messages v, isToolsCall ms = false) ∨ Decodes v := by
  rw [parse_eq hdoc]
  constructor
  · intro h
    by_contra hcond
    rw [not_or] at hcond
    -- such a body gives no calls, so the correspondence leaves no tool call in it
    have hcorr := h [] (callsOf_of_not_decodes hnames hcond.2)
    refine hcond.1 fun ms hms => ?_
    rw [Corresponds, List.filter_nil, List.forall₂_nil_left_iff, List.filter_eq_nil_iff] at hcorr
    exact Bool.eq_false_iff.mpr (hcorr ms hms)
  · rintro hcond calls hcalls
    by_cases hdec : Decodes v
    · exact corresponds_of_decodes hnames hdec hcalls
    · rw [callsOf_of_not_decodes hnames hdec] at hcalls
      cases hcalls
      have hnone := hcond.resolve_right hdec
      rw [Corresponds, List.filter_nil, List.forall₂_nil_left_iff, List.filter_eq_nil_iff]
      intro ms hms
      rw [hnone ms hms]
      exact Bool.false_ne_true

/-- A call of the tool x. -/
def callX : Json :=
  .object [(quote (Bytes.ascii "method"), .string (quote methodToolsCall)),
    (quote (Bytes.ascii "params"),
      .object [(quote (Bytes.ascii "name"), .string (quote (Bytes.ascii "x")))])]

theorem parse_reads_tool_calls_iff_single :
    parse (render callX) = .ok [⟨methodToolsCall, Bytes.ascii "x", true⟩] ∧
      Corresponds [⟨methodToolsCall, Bytes.ascii "x", true⟩] (messages callX) := by
  have hdoc : Document callX (render callX) :=
    ⟨[], render callX, [], by simp, isSpaces_nil, text_render _, isSpaces_nil⟩
  have hdecodes : Decodes callX := ⟨by decide +kernel, by rintro vs ⟨⟩⟩
  have hparse : parse (render callX) = .ok [⟨methodToolsCall, Bytes.ascii "x", true⟩] := by decide +kernel
  exact ⟨hparse, (parse_reads_tool_calls_iff hdoc (by decide +kernel)).mpr (.inr hdecodes) _ hparse⟩

/-- A batch of a tool call and a number. -/
def oddBatch : Bytes :=
  Bytes.ascii "[\x7b\"method\":\"tools/call\",\"params\":\x7b\"name\":\"x\"\x7d\x7d,1]"

/-- The tool call beside the number is not seen. -/
theorem parse_misses_call_beside_number :
    ∃ v, Document v oddBatch ∧ ExactValue v ∧ parse oddBatch = .ok [] ∧
      ¬Corresponds [] (messages v) := by
  have htext : render (.array [callX, .number (decimal 1)]) = oddBatch := by decide +kernel
  refine ⟨.array [callX, .number (decimal 1)],
    ⟨[], _, [], by simp, isSpaces_nil, htext ▸ text_render _, isSpaces_nil⟩,
    by decide +kernel, by decide +kernel, ?_⟩
  have hcall : (messages (.array [callX, .number (decimal 1)])).filter isToolsCall ≠ [] := by
    decide +kernel
  rw [Corresponds, List.filter_nil, List.forall₂_nil_left_iff]
  exact hcall

end Sanad.Mcprpc
