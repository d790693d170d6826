import Sanad.Mcprpc.ToolCalls
import Sanad.Passport.Codec
import Sanad.Policy.Stage
import Sanad.Sts
import Sanad.Verify

/-! # The gateway and the resource server agree

The gateway reads the calls of a body, decides on each of them and mints a passport for the tools
that are called. The resource server reads the same body again and compares its calls with the scope
that came out of the token. Between the two, the scope is narrowed, written as JSON and base64, and
read back; a tool is named by a JSON string in the first place, so its name survives.
-/

namespace Sanad.Verify

open Gateway Json

/-! ## Names of tools -/

theorem valid_of_foldlM_decodeParam {ms : List (StringLit × Json)} {old : Option Bytes}
    {name : Bytes} (hold : ∀ n ∈ old, Utf8.valid n = true)
    (h : ms.foldlM Mcprpc.decodeParam old = some (some name)) : Utf8.valid name = true := by
  induction ms generalizing old with
  | nil =>
      cases h
      exact hold name rfl
  | cons m ms ih =>
      obtain ⟨new, hnew, hrest⟩ := Option.bind_eq_some_iff.mp h
      refine ih (fun n hn => ?_) hrest
      rw [Mcprpc.decodeParam] at hnew
      split at hnew
      · cases hm : m.2 with
        | string lit =>
            rw [hm] at hnew
            cases hnew
            cases hn
            exact valid_unquote lit
        | null =>
            rw [hm] at hnew
            cases hnew
            cases hn
        | _ =>
            rw [hm] at hnew
            cases hnew
      · cases hnew
        exact hold n hn

theorem valid_of_call {m : Mcprpc.RpcMessage} {call : Mcprpc.Call} (h : m.call = .ok (some call)) :
    Utf8.valid call.tool = true := by
  rw [Mcprpc.RpcMessage.call] at h
  split at h
  · cases h
  · split at h
    · cases h
      rfl
    · split at h
      · next name hparams =>
          split at h
          · cases h
          · cases h
            unfold Mcprpc.decodeParams at hparams
            split at hparams
            · exact valid_of_foldlM_decodeParam (by simp) hparams
            · cases hparams
            · cases hparams
      · cases h

/-- The tools that a body names are valid UTF-8. -/
theorem valid_tool_of_parse {body : Bytes} {calls : List Mcprpc.Call}
    (h : Mcprpc.parse body = .ok calls) {call : Mcprpc.Call} (hcall : call ∈ calls) :
    Utf8.valid call.tool = true := by
  obtain ⟨m, hm⟩ := Mcprpc.exists_call_of_parse h call hcall
  exact valid_of_call hm

/-! ## Scopes -/

section

variable {S : SignatureScheme} {sha256 : Bytes → Bytes} {v : Verifier} {audience : Bytes} {now : ℤ}

/-- The tools of a verified passport are those it was minted for, up to their UTF-8. -/
theorem tools_of_verify {σ : Type} {signer : Sts.Signer σ} {cfg : Sts.Config}
    {clock : Workload.Clock σ} {newID : EStateM Bytes σ Bytes} {x : Sts.IssueRequest}
    {m : Sts.Minted} {w w' : σ} {p : Passport}
    (hissue : (Sts.EdDSAIssuer.new cfg clock newID (signer.sign S sha256)).issue x w = .ok m w')
    (hverify : v.verify S m.token audience now = .ok p) :
    p.scope.tools = x.scope.tools.map fun t => unquote (quote t) := by
  obtain ⟨w₁, w₂, hsign⟩ := Sts.token_of_issue hissue
  obtain ⟨kid, sign, hsign⟩ := Sts.signWith_of_sign hsign
  obtain ⟨-, -, -, -, -, hscope, -⟩ := Sts.passport_of_issue hissue
  simp only [Verifier.verify, Except.bind_eq_ok_iff, Except.mapError_eq_ok_iff] at hverify
  obtain ⟨-, -, pub, -, claims, hclaims, hp⟩ := hverify
  cases hp
  have htools := Passport.tools_of_decode (Passport.decode_of_verify hsign hclaims)
  rw [← hscope]
  exact htools

/-- The scope that the policy stage leaves covers the tools of the calls it decided on. -/
theorem mem_tools_of_stage {σ : Type} {pdp : Policy.PDP σ} {approver : Option (Policy.Approver σ)}
    {w w' : σ} {req req' : Request}
    (h : (Policy.stage pdp approver Policy.mcpActions).handle (w, req) = .ok () (w', req'))
    {call : Mcprpc.Call} (hcall : call ∈ req.calls) (htool : call.tool ≠ []) :
    call.tool ∈ req'.scope.tools := by
  obtain ⟨-, d, rfl⟩ := Policy.handle_stage h
  have hact : (⟨call.method, call.tool⟩ : Policy.Action) ∈ Policy.mcpActions req :=
    List.mem_map_of_mem hcall
  exact Policy.mem_narrow hact htool

end

/-! ## Agreement -/

/-- For every body, delegated scope, decision point and approver: if the body parses and the policy
stage passes, then the middleware with the scope enforced serves a request that carries the body and
the passport minted from the scope that the stage left, if the passport verifies there and the body,
if it is read at all, is within the cap. And for every passport with a scope that names tools, it
refuses each request whose body it reads and finds a call of another tool in. -/
theorem middleware_agrees {σ τ : Type} (S : SignatureScheme) (sha256 : Bytes → Bytes) (v : Verifier)
    (audience : Bytes) (o : Options) (henforce : o.enforceScope = true)
    (hscoped : o.requireScoped = false) (now : ℤ) (r : HttpRequest) :
    (∀ (pdp : Policy.PDP σ) (approver : Option (Policy.Approver σ)) (w w' : σ) (req req' : Request)
        (body : Bytes) (signer : Sts.Signer τ) (cfg : Sts.Config) (clock : Workload.Clock τ)
        (newID : EStateM Bytes τ Bytes) (x : Sts.IssueRequest) (m : Sts.Minted) (u u' : τ)
        (p : Passport),
      Mcprpc.parse body = .ok req.calls →
      (Policy.stage pdp approver Policy.mcpActions).handle (w, req) = .ok () (w', req') →
      x.scope = req'.scope →
      (Sts.EdDSAIssuer.new cfg clock newID (signer.sign S sha256)).issue x u = .ok m u' →
      r.bearer = some m.token → v.verify S m.token audience now = .ok p →
      (Mcprpc.hasBody r → body.length ≤ Mcprpc.bodyLimit o.maxBody) →
      ∃ r', middleware S v audience o now r ⟨body, none⟩ = .ok ⟨p, r', ⟨body, none⟩⟩) ∧
    ∀ (raw : Bytes) (p : Passport) (body : Body) (calls : List Mcprpc.Call) (call : Mcprpc.Call),
      r.bearer = some raw → v.verify S raw audience now = .ok p → p.scope.tools ≠ [] →
      Mcprpc.parse body.data = .ok calls → call ∈ calls → call.tool ≠ [] →
      call.tool ∉ p.scope.tools → Mcprpc.hasBody r →
      ∃ refusal, middleware S v audience o now r body = .error refusal := by
  constructor
  · intro pdp approver w w' req req' body signer cfg clock newID x m u u' p hparse hstage hscope
      hissue hbearer hverify hlimit
    have htools := tools_of_verify hissue hverify
    have hallows : ∀ c ∈ req.calls, c.tool ≠ [] → allows p c.tool := by
      intro c hc htool
      refine .inr ?_
      rw [htools, hscope]
      have hmem := mem_tools_of_stage hstage hc htool
      -- the name was read from JSON, so it survives being written and read again
      exact List.mem_map.mpr ⟨c.tool, hmem, unquote_quote (valid_tool_of_parse hparse hc)⟩
    rw [middleware_of_verify hbearer hverify (by simp [hscoped])]
    by_cases hbody : Mcprpc.hasBody r
    · rw [if_pos ⟨henforce, hbody⟩]
      exact enforce_complete r (hlimit hbody) hparse hallows
    · rw [if_neg (fun h => hbody h.2)]
      exact ⟨r, rfl⟩
  · intro raw p body calls call hbearer hverify hne hparse hcall htool hout hbody
    cases hresult : middleware S v audience o now r body with
    | error refusal => exact ⟨refusal, rfl⟩
    | ok s =>
        obtain ⟨⟨raw', hbearer', hverify'⟩, -, hcalls⟩ := middleware_eq_ok hresult
        rw [hbearer] at hbearer'
        cases hbearer'
        rw [hverify] at hverify'
        obtain ⟨calls', hparse', hscope⟩ := hcalls henforce hbody
        rw [hparse] at hparse'
        cases hparse'
        obtain ⟨p', hp', hallows⟩ := requireScope_eq_ok_iff.mp (hscope call hcall htool)
        obtain rfl : p' = p := by
          rw [Except.ok.inj hverify']
          exact (Option.some.inj hp').symm
        rcases hallows with hnil | hmem
        · exact absurd (List.length_eq_zero_iff.mp hnil) hne
        · exact absurd hmem hout

/-! A call of the tool read, and passports for one tool each. -/

namespace Sample

def priv : Bytes := List.replicate 64 7

def sha256 : Bytes → Bytes := fun _ => []

def verifier : Verifier := ⟨fun kid => if kid = Bytes.ascii "k" then some (priv.drop 32) else none⟩

def clock : Workload.Clock Unit := fun w => .ok (Time.ofUnix 1000) w

def principal : Principal := ⟨Bytes.ascii "p", [], .org, false, 0⟩

/-- The request at the gateway, with its scope. -/
def request (scope : Scope) : Request where
  server := Bytes.ascii "s"
  target := some ⟨Bytes.ascii "s"⟩
  http := none
  body := none
  calls := [⟨Mcprpc.methodToolsCall, Bytes.ascii "read", true⟩]
  principal := some principal
  agent := none
  decision := none
  scope := scope
  delegation := none
  passport := none

def pdp : Policy.PDP Unit := fun _ w => .ok ⟨.allow, .text []⟩ w

def only (tool : String) : Scope := ⟨[Bytes.ascii tool], none⟩

def signer : Sts.Signer Unit := .localSigner (Bytes.ascii "k") priv

def newID : EStateM Bytes Unit Bytes := fun w => .ok (Bytes.ascii "jti") w

def cfg : Sts.Config := ⟨Bytes.ascii "sanad", 0⟩

def issueRequest (scope : Scope) : Sts.IssueRequest :=
  ⟨some principal, none, Bytes.ascii "s", scope, none⟩

def passport (scope : Scope) : Passport where
  id := Bytes.ascii "jti"
  principalID := Bytes.ascii "p"
  agentID := []
  audience := Bytes.ascii "s"
  scope := scope
  delegation := none
  issuedAt := Time.ofUnix 1000
  expiresAt := Time.ofUnix 1120

def token (scope : Scope) : Bytes :=
  match signer.sign .free sha256 (passport scope) (Bytes.ascii "sanad") () with
  | .ok token _ => token
  | .error _ _ => []

/-- The request at the resource server. -/
def forwarded (method : String) (scope : Scope) : HttpRequest where
  method := Bytes.ascii method
  target := Bytes.ascii "/"
  header := [(Bytes.ascii "Authorization", [Bytes.ascii "Bearer " ++ token scope])]
  contentLength := -1
  hasBody := true

def options : Options := .new [.enforceScope]

def body : Bytes :=
  Bytes.ascii "\x7b\"method\":\"tools/call\",\"params\":\x7b\"name\":\"read\"\x7d\x7d"

theorem parse_body : Mcprpc.parse body = .ok (request (only "read")).calls := by decide +kernel

theorem handle_stage :
    (Policy.stage pdp none Policy.mcpActions).handle ((), request ⟨[], none⟩) =
      .ok () ((), { request (only "read") with decision := some ⟨.allow, .text []⟩ }) := by
  rfl

theorem issue_read :
    (Sts.EdDSAIssuer.new cfg clock newID (signer.sign .free sha256)).issue
      (issueRequest (only "read")) () = .ok ⟨passport (only "read"), token (only "read")⟩ () := by
  rfl

/-- The claims in the token for a scope. -/
def claims (scope : Scope) : Passport.Claims := (passport scope).toClaims sha256 (Bytes.ascii "sanad")

theorem token_eq (scope : Scope) :
    token scope = Passport.signingInput (Bytes.ascii "k") (claims scope) ++ [Passport.dot] ++
      Base64Url.encode (SignatureScheme.free.sign priv
        (Passport.signingInput (Bytes.ascii "k") (claims scope))) := by
  have hpriv : priv.length = 64 := List.length_replicate
  simp [token, signer, Sts.Signer.sign, Passport.sign, Passport.signWith, Passport.signingInput, claims,
    EStateM.require, hpriv, bind, EStateM.bind, pure, EStateM.pure]

theorem token_ne_nil (scope : Scope) : token scope ≠ [] := by
  rw [token_eq]
  simp

theorem verify_only {tool : String} (h : Utf8.valid (Bytes.ascii tool) = true) :
    verifier.verify .free (token (only tool)) (Bytes.ascii "s") (Time.ofUnix 1060) =
      .ok (passport (only tool)) := by
  have hrange : (claims (only tool)).InRange := Passport.inRange_toClaims _ _ (by simp [passport, only])
  have hreread : (claims (only tool)).reread = claims (only tool) := by
    refine Passport.Claims.reread_of_validUtf8 ⟨rfl, rfl, rfl, rfl, rfl, ?_, ?_, ?_, ?_⟩
    · exact List.forall_mem_singleton.mpr h
    -- there is neither a budget nor a delegation in the claims
    · rintro b ⟨⟩
    · rintro r ⟨⟩
    · rintro r ⟨⟩
  have hexpiry : Time.unix (Time.ofUnix 1060) < Time.unix (Time.ofUnix 1120) := by decide
  have hsig := (SignatureScheme.ideal_free.verify_iff (priv.drop 32)
    (Passport.signingInput (Bytes.ascii "k") (claims (only tool))) _).mpr ⟨priv, rfl, rfl⟩
  simp only [Verifier.verify, Except.bind_eq_ok_iff, Except.mapError_eq_ok_iff,
    Except.ofOption_eq_ok_iff]
  refine ⟨Bytes.ascii "k", ?_, priv.drop 32, rfl, claims (only tool), ?_, rfl⟩
  · rw [token_eq]
    exact Passport.keyID_token _ _ _
  · rw [token_eq, Passport.verify_token hrange, hreread]
    exact ⟨by decide, hsig, ⟨.inr rfl, hexpiry⟩, rfl⟩

theorem verify_read : verifier.verify .free (token (only "read")) (Bytes.ascii "s")
    (Time.ofUnix 1060) = .ok (passport (only "read")) :=
  verify_only (by decide)

theorem verify_write : verifier.verify .free (token (only "write")) (Bytes.ascii "s")
    (Time.ofUnix 1060) = .ok (passport (only "write")) :=
  verify_only (by decide)

theorem bearer_forwarded (method : String) (scope : Scope) :
    (forwarded method scope).bearer = some (token scope) := by
  have hget : (forwarded method scope).get (Bytes.ascii "Authorization") =
      Bytes.ascii "Bearer " ++ token scope := rfl
  have hlength : (Bytes.ascii "Bearer ").length = 7 := rfl
  have hpos := List.length_pos_iff.mpr (token_ne_nil scope)
  rw [HttpRequest.bearer, hget]
  simp only [List.length_append, hlength, List.take_left' hlength, List.drop_left' hlength]
  rw [if_pos ⟨by omega, by decide⟩]

/-- The value of the body. -/
def message : Json :=
  .object [(quote (Bytes.ascii "method"), .string (quote Mcprpc.methodToolsCall)),
    (quote (Bytes.ascii "params"),
      .object [(quote (Bytes.ascii "name"), .string (quote (Bytes.ascii "read")))])]

/-- The body, with 1 MiB of spaces after it. -/
def padded : Bytes := body ++ List.replicate 1048576 0x20

theorem parse_padded : Mcprpc.parse padded = Mcprpc.parse body := by
  have htext : Text message body := by
    have hrender : render message = body := by decide +kernel
    exact hrender ▸ text_render message
  have hpad : IsSpaces (List.replicate 1048576 0x20) := by
    intro c hc
    rw [List.eq_of_mem_replicate hc]
    rfl
  have hbody : Document message body :=
    ⟨[], body, [], by rw [List.nil_append, List.append_nil], isSpaces_nil, htext, isSpaces_nil⟩
  have hpadded : Document message padded :=
    ⟨[], body, _, by rw [padded, List.nil_append], isSpaces_nil, htext, hpad⟩
  rw [Mcprpc.parse_eq hpadded, Mcprpc.parse_eq hbody]

end Sample

open Sample in
theorem middleware_agrees_read :
    (∃ r', middleware .free verifier (Bytes.ascii "s") options (Time.ofUnix 1060)
        (forwarded "POST" (only "read")) ⟨body, none⟩ =
      .ok ⟨passport (only "read"), r', ⟨body, none⟩⟩) ∧
    ∃ refusal, middleware .free verifier (Bytes.ascii "s") options (Time.ofUnix 1060)
        (forwarded "POST" (only "write")) ⟨body, none⟩ = .error refusal := by
  constructor
  · exact (middleware_agrees .free sha256 verifier (Bytes.ascii "s") options rfl rfl
      (Time.ofUnix 1060) (forwarded "POST" (only "read"))).1 pdp none () () (request ⟨[], none⟩)
      _ body signer cfg clock newID (issueRequest (only "read")) _ () () _ parse_body handle_stage
      rfl issue_read (bearer_forwarded "POST" _) verify_read (fun _ => by decide)
  · exact (@middleware_agrees Unit Unit .free sha256 verifier (Bytes.ascii "s") options rfl rfl
      (Time.ofUnix 1060) (forwarded "POST" (only "write"))).2 _ _ ⟨body, none⟩ _
      ⟨Mcprpc.methodToolsCall, Bytes.ascii "read", true⟩ (bearer_forwarded "POST" _) verify_write (by decide)
      parse_body (by decide) (by decide) (by decide) (by decide)

open Sample in
/-- A body beyond the cap is refused although its one call is within the scope, and the body of a
request other than a POST is not looked at. -/
theorem middleware_limits :
    (Mcprpc.parse padded = .ok (request ⟨[], none⟩).calls ∧
      (Policy.stage pdp none Policy.mcpActions).handle ((), request ⟨[], none⟩) =
        .ok () ((), { request (only "read") with decision := some ⟨.allow, .text []⟩ }) ∧
      (Sts.EdDSAIssuer.new cfg clock newID (signer.sign .free sha256)).issue
        (issueRequest (only "read")) () = .ok ⟨passport (only "read"), token (only "read")⟩ () ∧
      verifier.verify .free (token (only "read")) (Bytes.ascii "s") (Time.ofUnix 1060) =
        .ok (passport (only "read")) ∧
      middleware .free verifier (Bytes.ascii "s") options (Time.ofUnix 1060)
        (forwarded "POST" (only "read")) ⟨padded, none⟩ = .error .tooLarge) ∧
    verifier.verify .free (token (only "write")) (Bytes.ascii "s") (Time.ofUnix 1060) =
      .ok (passport (only "write")) ∧
    Mcprpc.parse body = .ok [⟨Mcprpc.methodToolsCall, Bytes.ascii "read", true⟩] ∧
    middleware .free verifier (Bytes.ascii "s") options (Time.ofUnix 1060)
        (forwarded "PUT" (only "write")) ⟨body, none⟩ =
      .ok ⟨passport (only "write"), forwarded "PUT" (only "write"), ⟨body, none⟩⟩ := by
  have hlarge : enforce options.maxBody (passport (only "read")) (forwarded "POST" (only "read"))
      ⟨padded, none⟩ = .error .tooLarge := by
    have hlength : Mcprpc.bodyLimit options.maxBody < padded.length := by
      have hbody : 0 < body.length := by decide
      have hlimit : Mcprpc.bodyLimit options.maxBody = 1048576 := by decide
      rw [hlimit, padded, List.length_append, List.length_replicate]
      omega
    rw [enforce, Mcprpc.bufferBody, if_pos hlength]
    rfl
  refine ⟨⟨parse_padded.trans parse_body, handle_stage, issue_read, verify_read, ?_⟩, verify_write,
    parse_body, ?_⟩
  · rw [middleware_of_verify (bearer_forwarded "POST" _) verify_read (by decide),
      if_pos (by decide), hlarge]
  · rw [middleware_of_verify (bearer_forwarded "PUT" _) verify_write (by decide),
      if_neg (by decide)]

end Sanad.Verify
