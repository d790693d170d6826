import Sanad.Common.Except
import Sanad.Common.Json.Decode

/-! # Reading the calls of a request body

`internal/mcprpc`: the JSON-RPC messages of a request body and the tools they invoke. A body that
cannot be decoded gives no calls; a `tools/call` without a tool name is an error.
-/

namespace Sanad.Mcprpc

open Json

/-- `MethodToolsCall`: the one method whose parameters name a tool. -/
def methodToolsCall : Bytes := Bytes.ascii "tools/call"

/-- `Call`: one message, reduced to what a decision needs. -/
structure Call where
  method : Bytes
  /-- The target of a `tools/call`; empty for every other method. -/
  tool : Bytes
  /-- The message has no `id`. -/
  notification : Bool
  deriving DecidableEq, Repr

/-! ## The envelope -/

/-- The fields of `rpcMessage`. -/
inductive Field where
  | method
  | id
  | params
  deriving DecidableEq, Repr

def rpcFields : List (Bytes × Field) :=
  [(Bytes.ascii "method", .method), (Bytes.ascii "id", .id), (Bytes.ascii "params", .params)]

/-- `rpcMessage`: a `json.RawMessage` is kept as the value it is a text of. -/
structure RpcMessage where
  method : Option Bytes
  id : Option Json
  params : Option Json

/-- The zero message. -/
def RpcMessage.zero : RpcMessage := ⟨none, none, none⟩

/-- Decode one member into a message. A raw field takes any value, `null` included. -/
def RpcMessage.decodeMember (msg : RpcMessage) (m : StringLit × Json) : Option RpcMessage :=
  match fieldOf rpcFields (unquote m.1) with
  | some .method => (decodeString m.2).map fun s => { msg with method := s }
  | some .id => some { msg with id := some m.2 }
  | some .params => some { msg with params := some m.2 }
  | none => some msg

/-- Decode a value into a fresh message; `null` leaves it as it is. -/
def RpcMessage.decode : Json → Option RpcMessage
  | .object ms => ms.foldlM RpcMessage.decodeMember RpcMessage.zero
  | .null => some RpcMessage.zero
  | _ => none

/-- Decode a value into a slice of messages. -/
def decodeBatch : Json → Option (List RpcMessage)
  | .array vs => vs.mapM RpcMessage.decode
  | _ => none

/-! ## The name of the tool -/

/-- Decode one member of the parameters; only `name` has a field. -/
def decodeParam (name : Option Bytes) (m : StringLit × Json) : Option (Option Bytes) :=
  match fieldOf [(Bytes.ascii "name", ())] (unquote m.1) with
  | some () => decodeString m.2
  | none => some name

/-- Decode the parameters of a `tools/call`. The raw message is empty when there was no such member,
and no JSON then. -/
def decodeParams : Option Json → Option (Option Bytes)
  | some (.object ms) => ms.foldlM decodeParam none
  | some .null => some none
  | _ => none

/-- Why a body is refused. -/
inductive ParseError where
  /-- "tools/call with no params.name: the tool being invoked cannot be determined" -/
  | noTool
  /-- "batch element %d: %w" -/
  | batchElement (i : ℕ) (err : ParseError)
  deriving DecidableEq, Repr

/-- `rpcMessage.call`: reduce a message to a call; a message without a method is none. -/
def RpcMessage.call (m : RpcMessage) : Except ParseError (Option Call) :=
  match m.method with
  | none => .ok none
  | some method =>
    let notification := m.id.isNone
    if method ≠ methodToolsCall then .ok (some ⟨method, [], notification⟩)
    else
      match decodeParams m.params with
      | some (some name) =>
        if name = [] then .error .noTool else .ok (some ⟨method, name, notification⟩)
      | _ => .error .noTool

/-- The calls of a batch, from its element number `i` on. -/
def batchCalls : ℕ → List RpcMessage → Except ParseError (List Call)
  | _, [] => .ok []
  | i, m :: ms => do
    let call ← m.call.mapError (.batchElement i)
    let calls ← batchCalls (i + 1) ms
    .ok (call.toList ++ calls)

/-- `Parse`: the calls a request body contains. -/
def parse (body : Bytes) : Except ParseError (List Call) :=
  let body := Utf8.trimSpace body
  match body with
  | [] => .ok []
  | c :: _ =>
    if c = openBrace then
      match (unmarshal body).bind RpcMessage.decode with
      | none => .ok []
      | some msg => do
        let call ← msg.call
        .ok call.toList
    else if c = openBracket then
      match (unmarshal body).bind decodeBatch with
      | none => .ok []
      | some msgs => batchCalls 0 msgs
    else .ok []

/-! ## Every `tools/call` names its tool -/

theorem tool_ne_nil_of_call {m : RpcMessage} {call : Call} (h : m.call = .ok (some call))
    (hmethod : call.method = methodToolsCall) : call.tool ≠ [] := by
  rw [RpcMessage.call] at h
  split at h
  · cases h
  · split at h
    · next hne =>
        cases h
        exact absurd hmethod hne
    · split at h
      · split at h
        · cases h
        · next hname =>
            cases h
            exact hname
      · cases h

theorem mem_of_batchCalls {i : ℕ} {ms : List RpcMessage} {calls : List Call}
    (h : batchCalls i ms = .ok calls) : ∀ call ∈ calls, ∃ m ∈ ms, m.call = .ok (some call) := by
  induction ms generalizing i calls with
  | nil =>
      cases h
      intro call hcall
      cases hcall
  | cons m ms ih =>
      rw [batchCalls, Except.bind_eq_ok_iff] at h
      obtain ⟨first, hfirst, h⟩ := h
      obtain ⟨rest, hrest, h⟩ := Except.bind_eq_ok_iff.mp h
      rw [Except.mapError_eq_ok_iff] at hfirst
      cases h
      intro call hcall
      rcases List.mem_append.mp hcall with hcall | hcall
      · rw [Option.mem_toList] at hcall
        exact ⟨m, List.mem_cons_self, by rw [hfirst, hcall]⟩
      · obtain ⟨m', hm', hcall⟩ := ih hrest call hcall
        exact ⟨m', List.mem_cons_of_mem m hm', hcall⟩

/-- The calls of a body are calls of messages. -/
theorem exists_call_of_parse {body : Bytes} {calls : List Call} (h : parse body = .ok calls) :
    ∀ call ∈ calls, ∃ m : RpcMessage, m.call = .ok (some call) := by
  have hnone : ∀ {cs : List Call}, (Except.ok [] : Except ParseError _) = .ok cs →
      ∀ call ∈ cs, ∃ m : RpcMessage, m.call = .ok (some call) := by
    rintro cs ⟨⟩ call hcall
    cases hcall
  unfold parse at h
  dsimp only at h
  split at h
  · exact hnone h
  · split at h
    · split at h
      · exact hnone h
      · next msg _ =>
          obtain ⟨call, hcall, h⟩ := Except.bind_eq_ok_iff.mp h
          cases h
          intro call' hmem
          rw [Option.mem_toList] at hmem
          exact ⟨msg, by rw [hcall, hmem]⟩
    · split at h
      · split at h
        · exact hnone h
        · intro call hcall
          obtain ⟨m, -, hm⟩ := mem_of_batchCalls h call hcall
          exact ⟨m, hm⟩
      · exact hnone h

theorem tool_ne_nil_of_parse {body : Bytes} {calls : List Call} (h : parse body = .ok calls)
    {call : Call} (hcall : call ∈ calls) (hmethod : call.method = methodToolsCall) :
    call.tool ≠ [] := by
  obtain ⟨m, hm⟩ := exists_call_of_parse h call hcall
  exact tool_ne_nil_of_call hm hmethod

end Sanad.Mcprpc
