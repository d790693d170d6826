import Sanad.Common.Json.Record
import Sanad.Mcprpc.ToolCalls

/-! # Which members a call is read from

`encoding/json` matches member names up to case, and of several members for one field the last one
counts. So the method and the tool of a call are those of the last variants (`foldedMethod`,
`foldedTool`), which need not be the members that a case-sensitive reader sees (`exactMethod`,
`toolName`).
-/

namespace Sanad.Mcprpc

open Json

/-- The text of a string. -/
def stringOf : Option Json → Option Bytes
  | some (.string lit) => some (unquote lit)
  | _ => none

/-- The members of an object. -/
def membersOf : Option Json → List (StringLit × Json)
  | some (.object ms) => ms
  | _ => []

/-- The string at the member `method`. -/
def exactMethod (ms : List (StringLit × Json)) : Option Bytes :=
  stringOf (member (Bytes.ascii "method") ms)

/-- The method as it is decoded. -/
def foldedMethod (ms : List (StringLit × Json)) : Option Bytes :=
  stringOf (variants (Bytes.ascii "method") ms).getLast?

/-- The parameters as they are decoded. -/
def foldedParams (ms : List (StringLit × Json)) : Option Json :=
  (variants (Bytes.ascii "params") ms).getLast?

/-- The tool as it is decoded. -/
def foldedTool (ms : List (StringLit × Json)) : Option Bytes :=
  stringOf (variants (Bytes.ascii "name") (membersOf (foldedParams ms))).getLast?

/-! ## Decoding a message -/

theorem foldlM_decodeString (vs : List Json) :
    vs.foldlM (fun _ v => decodeString v) none =
      if vs.all isText then some (stringOf vs.getLast?) else none := by
  have htext : (fun v => (decodeString v).isSome) = isText := by
    funext v
    cases v <;> rfl
  rw [foldlM_overwrite, htext]
  by_cases hall : vs.all isText = true
  · rw [if_pos hall, if_pos hall]
    cases hlast : vs.getLast? with
    | none => rfl
    | some v =>
        have hv : isText v = true := List.all_eq_true.mp hall v (List.mem_of_getLast? hlast)
        cases v with
        | null => rfl
        | string lit => rfl
        | _ => cases hv
  · rw [if_neg hall, if_neg hall]

theorem decode_object (ms : List (StringLit × Json)) :
    RpcMessage.decode (.object ms) =
      if (variants (Bytes.ascii "method") ms).all isText then
        some ⟨foldedMethod ms, (variants (Bytes.ascii "id") ms).getLast?, foldedParams ms⟩
      else none := by
  rw [RpcMessage.decode, foldlM_decodeMember_variants]
  show Option.map _ ((variants (Bytes.ascii "method") ms).foldlM (fun _ v => decodeString v) none) = _
  rw [foldlM_decodeString]
  split
  · simp [RpcMessage.zero, foldedMethod, foldedParams]
  · rfl

/-- The parameters name a tool: they are an object, whose members called `name` up to case are
strings or `null`, and the last of them is a string that is not empty. -/
def NamesTool (ms : List (StringLit × Json)) : Prop :=
  (∃ ps, foldedParams ms = some (.object ps)) ∧
    (variants (Bytes.ascii "name") (membersOf (foldedParams ms))).all isText = true ∧
    ∃ name ∈ foldedTool ms, name ≠ []

/-- What `decodeParams` makes of the parameters of a message, where they name a tool. -/
theorem decodeParams_foldedParams {ms : List (StringLit × Json)} {name : Bytes} :
    decodeParams (foldedParams ms) = some (some name) ∧ name ≠ [] ↔
      NamesTool ms ∧ foldedTool ms = some name := by
  rw [NamesTool, foldedTool]
  cases foldedParams ms with
  | none => simp [decodeParams]
  | some p =>
      cases p with
      | object ps =>
          rw [decodeParams, foldlM_decodeParam_variants, foldlM_decodeString, membersOf]
          cases (variants (Bytes.ascii "name") ps).all isText with
          | false => simp
          | true =>
              cases stringOf (variants (Bytes.ascii "name") ps).getLast? with
              | none => simp
              | some name' =>
                  constructor
                  · rintro ⟨h, hne⟩
                    obtain rfl : name' = name := Option.some.inj (Option.some.inj h)
                    exact ⟨⟨⟨ps, rfl⟩, rfl, name', rfl, hne⟩, rfl⟩
                  · rintro ⟨⟨-, -, name'', ⟨⟩, hne⟩, ⟨⟩⟩
                    exact ⟨rfl, hne⟩
      | null => simp [decodeParams]
      | _ => simp [decodeParams]

/-! ## Reducing a message to a call -/

/-- The call that a message is reduced to, if it can be read and is a call. -/
def messageCall (ms : List (StringLit × Json)) : Option Call :=
  ((RpcMessage.decode (.object ms)).bind fun msg => msg.call.toOption).join

/-- A method, with the tool if it is the one that calls tools. -/
def reading (tool : Option Bytes) (method : Bytes) : Bytes × Option Bytes :=
  (method, if method = methodToolsCall then tool else none)

/-- What a call names. -/
def Call.reading (call : Call) : Bytes × Option Bytes :=
  Mcprpc.reading (some call.tool) call.method

/-- What a message names to a reader that tells member names apart by case. -/
def exactReading (ms : List (StringLit × Json)) : Option (Bytes × Option Bytes) :=
  (exactMethod ms).map (reading (toolName ms))

/-- What a message names to a reader that takes the last of the members that differ by case. -/
def foldedReading (ms : List (StringLit × Json)) : Option (Bytes × Option Bytes) :=
  (foldedMethod ms).map (reading (foldedTool ms))

/-- The message can be read: its members called `method` up to case are strings or `null`, and if the
last of them says "tools/call" its parameters name a tool. -/
def ReadableMessage (ms : List (StringLit × Json)) : Prop :=
  (variants (Bytes.ascii "method") ms).all isText = true ∧
    (foldedMethod ms = some methodToolsCall → NamesTool ms)

/-- What is made of a message that can be read. -/
theorem call_of_readable {ms : List (StringLit × Json)} (h : ReadableMessage ms) :
    ∃ msg call, RpcMessage.decode (.object ms) = some msg ∧ msg.call = .ok call ∧
      call.map Call.reading = foldedReading ms := by
  obtain ⟨htext, htool⟩ := h
  refine ⟨⟨foldedMethod ms, (variants (Bytes.ascii "id") ms).getLast?, foldedParams ms⟩, ?_⟩
  rw [decode_object, if_pos htext, foldedReading, RpcMessage.call]
  cases hmethod : foldedMethod ms with
  | none => exact ⟨none, rfl, rfl, rfl⟩
  | some method =>
      by_cases hcalls : method = methodToolsCall
      · rw [hcalls] at hmethod
        obtain ⟨hobject, hall, name, hname, hne⟩ := htool hmethod
        obtain ⟨hdec, -⟩ := decodeParams_foldedParams.mpr ⟨⟨hobject, hall, name, hname, hne⟩, hname⟩
        refine ⟨some ⟨method, name, (variants (Bytes.ascii "id") ms).getLast?.isNone⟩, rfl, ?_, ?_⟩
        · simp only [hcalls, hdec, if_neg hne, ne_eq, not_true_eq_false, if_false]
        · simp [Call.reading, reading, hcalls, Option.mem_def.mp hname]
      · refine ⟨some ⟨method, [], (variants (Bytes.ascii "id") ms).getLast?.isNone⟩, rfl, ?_, ?_⟩
        · simp only [ne_eq, hcalls, not_false_eq_true, if_true]
        · simp [Call.reading, reading, hcalls]

/-- Only messages that can be read are reduced to a call, or to none. -/
theorem readable_of_call {ms : List (StringLit × Json)} {msg : RpcMessage} {call : Option Call}
    (hdec : RpcMessage.decode (.object ms) = some msg) (hcall : msg.call = .ok call) :
    ReadableMessage ms := by
  rw [decode_object] at hdec
  split at hdec
  · next htext =>
      cases hdec
      refine ⟨htext, fun hmethod => ?_⟩
      simp only [RpcMessage.call, hmethod, ne_eq, not_true_eq_false, if_false] at hcall
      split at hcall
      · next name hparams =>
          split at hcall
          · cases hcall
          · next hne => exact (decodeParams_foldedParams.mp ⟨hparams, hne⟩).1
      · cases hcall
  · cases hdec

theorem messageCall_eq {ms : List (StringLit × Json)} {msg : RpcMessage} {call : Option Call}
    (hdec : RpcMessage.decode (.object ms) = some msg) (hcall : msg.call = .ok call) :
    messageCall ms = call := by
  rw [messageCall, hdec, Option.bind_some, hcall]
  rfl

/-- A message that can be read is read without regard to case. -/
theorem reading_messageCall {ms : List (StringLit × Json)} (h : ReadableMessage ms) :
    (messageCall ms).map Call.reading = foldedReading ms := by
  obtain ⟨msg, call, hdec, hcall, hreading⟩ := call_of_readable h
  rw [messageCall_eq hdec hcall, hreading]

/-! ## The calls of a body -/

/-- A body or a batch element that is `null` or a message that can be read. -/
def ReadableElement : Json → Prop
  | .null => True
  | .object ms => ReadableMessage ms
  | _ => False

/-- The body can be read: it is not nested too deeply, and it is a message that can be read or a
batch of such messages. -/
def Readable : Json → Prop
  | .array vs => (Json.array vs).depth ≤ maxNestingDepth ∧ ∀ e ∈ vs, ReadableElement e
  | v => v.depth ≤ maxNestingDepth ∧ ReadableElement v

theorem readableElement_iff {e : Json} :
    ReadableElement e ↔
      ∃ msg, RpcMessage.decode e = some msg ∧ msg.call = .ok ((asObject e).bind messageCall) := by
  constructor
  · intro h
    cases e with
    | null => exact ⟨RpcMessage.zero, rfl, rfl⟩
    | object ms =>
        obtain ⟨msg, call, hdec, hcall, -⟩ := call_of_readable h
        exact ⟨msg, hdec, by rw [hcall, asObject, Option.bind_some, messageCall_eq hdec hcall]⟩
    | _ => exact h.elim
  · rintro ⟨msg, hdec, hcall⟩
    cases e with
    | null => trivial
    | object ms => exact readable_of_call hdec hcall
    | _ => cases hdec

/-- The calls of a batch of which every element can be read. -/
theorem batchCalls_of_readable {vs : List Json} (h : ∀ e ∈ vs, ReadableElement e) :
    ∃ msgs, vs.mapM RpcMessage.decode = some msgs ∧
      ∀ i, batchCalls i msgs = .ok ((vs.filterMap asObject).filterMap messageCall) := by
  induction vs with
  | nil => exact ⟨[], rfl, fun i => rfl⟩
  | cons e vs ih =>
      obtain ⟨msg, hdec, hcall⟩ := readableElement_iff.mp (h e List.mem_cons_self)
      obtain ⟨msgs, hmsgs, hcalls⟩ := ih fun e' he' => h e' (List.mem_cons_of_mem e he')
      refine ⟨msg :: msgs, by rw [List.mapM_cons, hdec, hmsgs]; rfl, fun i => ?_⟩
      rw [batchCalls, hcall, hcalls (i + 1)]
      show Except.ok (((asObject e).bind messageCall).toList ++ _) = _
      cases hobj : asObject e with
      | none => simp [hobj]
      | some ms => cases hms : messageCall ms <;> simp [hobj, hms]

/-- A batch is only reduced to calls if every element of it can be read. -/
theorem readable_of_batchCalls {vs : List Json} {msgs : List RpcMessage} {i : ℕ} {calls : List Call}
    (hdec : vs.mapM RpcMessage.decode = some msgs) (hcalls : batchCalls i msgs = .ok calls) :
    ∀ e ∈ vs, ReadableElement e := by
  induction vs generalizing msgs i calls with
  | nil => simp
  | cons e vs ih =>
      rw [List.mapM_cons] at hdec
      obtain ⟨msg, hmsg, hdec⟩ := Option.bind_eq_some_iff.mp hdec
      obtain ⟨rest, hrest, hdec⟩ := Option.bind_eq_some_iff.mp hdec
      cases hdec
      rw [batchCalls, Except.bind_eq_ok_iff] at hcalls
      obtain ⟨first, hfirst, hcalls⟩ := hcalls
      obtain ⟨later, hlater, -⟩ := Except.bind_eq_ok_iff.mp hcalls
      rw [Except.mapError_eq_ok_iff] at hfirst
      refine List.forall_mem_cons.mpr ⟨?_, ih hrest hlater⟩
      cases e with
      | null => trivial
      | object ms => exact readable_of_call hmsg hfirst
      | _ => cases hmsg

theorem callsOf_of_readable {v : Json} (h : Readable v) :
    callsOf v = .ok ((messages v).filterMap messageCall) := by
  cases v with
  | array vs =>
      obtain ⟨hdepth, hvs⟩ := h
      obtain ⟨msgs, hmsgs, hcalls⟩ := batchCalls_of_readable hvs
      rw [callsOf, if_pos hdepth, hmsgs]
      exact hcalls 0
  | object ms =>
      obtain ⟨hdepth, hms⟩ := h
      obtain ⟨msg, hdec, hcall⟩ := readableElement_iff.mp hms
      rw [callsOf, if_pos hdepth, hdec]
      show (msg.call >>= fun call => .ok call.toList) = _
      rw [hcall]
      show Except.ok (messageCall ms).toList = _
      cases hms' : messageCall ms <;> simp [messages, hms']
  | null => exact callsOf_scalar (by simp) (by simp)
  | _ => exact h.2.elim

/-- Calls are only returned for a body that can be read. -/
theorem readable_of_callsOf {v : Json} {calls : List Call} (h : callsOf v = .ok calls)
    (hne : calls ≠ []) : Readable v := by
  have hnil : (Except.ok [] : Except ParseError (List Call)) ≠ .ok calls := by
    intro heq
    exact hne (Except.ok.inj heq).symm
  rw [callsOf.eq_def] at h
  split at h
  · next hdepth =>
      cases v with
      | array vs =>
          refine ⟨hdepth, ?_⟩
          dsimp only at h
          split at h
          · exact absurd h hnil
          · next msgs hmsgs => exact readable_of_batchCalls hmsgs h
      | object ms =>
          refine ⟨hdepth, ?_⟩
          dsimp only at h
          split at h
          · exact absurd h hnil
          · next msg hmsg =>
              obtain ⟨call, hcall, -⟩ := Except.bind_eq_ok_iff.mp h
              exact readable_of_call hmsg hcall
      | _ => exact absurd h hnil
  · exact absurd h hnil

theorem Readable.of_mem {v : Json} (h : Readable v) {ms : List (StringLit × Json)}
    (hms : ms ∈ messages v) : ReadableMessage ms := by
  cases v with
  | object ms' =>
      rw [messages, List.mem_singleton] at hms
      subst hms
      exact h.2
  | array vs =>
      obtain ⟨e, he, hobj⟩ := List.mem_filterMap.mp hms
      have hread := h.2 e he
      cases e with
      | object ms' =>
          cases hobj
          exact hread
      | _ => cases hobj
  | _ => cases hms

/-! ## Agreement with a case-sensitive reader -/

/-- Whenever calls are returned, they are the calls of the messages of the body, in order, and every
message names the same method and the same tool to a case-sensitive reader. -/
def ReadsExactly (v : Json) (body : Bytes) : Prop :=
  ∀ calls, parse body = .ok calls → calls ≠ [] →
    calls = (messages v).filterMap messageCall ∧
      ∀ ms ∈ messages v, (messageCall ms).map Call.reading = exactReading ms

/-- For every body that is a JSON document: `Parse` agrees with a case-sensitive reader on what every
message names if and only if, where the body can be read and some message of it has a method, the
last members called `method`, `params` and `name` up to case say what the exact members say. -/
theorem readsExactly_iff {v : Json} {body : Bytes} (hdoc : Document v body) :
    ReadsExactly v body ↔
      (Readable v → (∃ ms ∈ messages v, foldedMethod ms ≠ none) →
        ∀ ms ∈ messages v, foldedReading ms = exactReading ms) := by
  rw [ReadsExactly, parse_eq hdoc]
  constructor
  · rintro h hread ⟨ms, hms, hmethod⟩ ms' hms'
    have hne : (messages v).filterMap messageCall ≠ [] := by
      intro hnil
      have hnone := List.filterMap_eq_nil_iff.mp hnil ms hms
      have hreading := reading_messageCall (hread.of_mem hms)
      rw [hnone, foldedReading] at hreading
      exact hmethod (Option.map_eq_none_iff.mp hreading.symm)
    rw [← reading_messageCall (hread.of_mem hms')]
    exact (h _ (callsOf_of_readable hread) hne).2 ms' hms'
  · intro h calls hcalls hne
    have hread := readable_of_callsOf hcalls hne
    rw [callsOf_of_readable hread] at hcalls
    cases hcalls
    refine ⟨rfl, fun ms hms => ?_⟩
    rw [reading_messageCall (hread.of_mem hms)]
    refine h hread ?_ ms hms
    obtain ⟨call, hcall⟩ := List.exists_mem_of_ne_nil _ hne
    obtain ⟨ms', hms', hcall⟩ := List.mem_filterMap.mp hcall
    refine ⟨ms', hms', fun hnone => ?_⟩
    have hreading := reading_messageCall (hread.of_mem hms')
    rw [hcall, foldedReading, hnone] at hreading
    cases hreading

theorem readsExactly_iff_single :
    parse (render callX) = .ok [⟨methodToolsCall, Bytes.ascii "x", true⟩] ∧
      ReadsExactly callX (render callX) := by
  have hdoc : Document callX (render callX) :=
    ⟨[], render callX, [], by simp, isSpaces_nil, text_render _, isSpaces_nil⟩
  refine ⟨by decide +kernel, (readsExactly_iff hdoc).mpr fun _ _ => ?_⟩
  decide +kernel

/-- A call whose parameters have two members called `name` up to case. -/
def callAB : Json :=
  .object [(quote (Bytes.ascii "method"), .string (quote methodToolsCall)),
    (quote (Bytes.ascii "params"),
      .object [(quote (Bytes.ascii "name"), .string (quote (Bytes.ascii "a"))),
        (quote (Bytes.ascii "Name"), .string (quote (Bytes.ascii "b")))])]

/-- The text of the call. -/
def twoNames : Bytes :=
  Bytes.ascii "\x7b\"method\":\"tools/call\",\"params\":\x7b\"name\":\"a\",\"Name\":\"b\"\x7d\x7d"

/-- The call is read as one of the tool b, but its member `name` is a. -/
theorem parse_takes_variant_name :
    ∃ v, Document v twoNames ∧ NoRepeats v ∧
      parse twoNames = .ok [⟨methodToolsCall, Bytes.ascii "b", true⟩] ∧
      (messages v).map toolName = [some (Bytes.ascii "a")] ∧ ¬ReadsExactly v twoNames := by
  have htext : render callAB = twoNames := by decide +kernel
  have hparse : parse twoNames = .ok [⟨methodToolsCall, Bytes.ascii "b", true⟩] := by decide +kernel
  refine ⟨callAB, ⟨[], _, [], by simp, isSpaces_nil, htext ▸ text_render _, isSpaces_nil⟩,
    by decide +kernel, hparse, by decide +kernel, fun h => ?_⟩
  obtain ⟨-, hreading⟩ := h _ hparse (by simp)
  revert hreading
  decide +kernel

end Sanad.Mcprpc
