import Sanad.Common.Except
import Sanad.Common.HashTree
import Sanad.Common.Json.Nesting
import Sanad.Common.Json.RoundTrip
import Sanad.Common.Linked
import Sanad.Types

/-! # The hash chain of the audit log

`audit/chainlog.go`: every entry carries the hash of the one before and a hash of both. The hash is
`crypto/sha256`, taken as a parameter `H`.

What is hashed is the previous hash, which the first entry does not have, and right after it the JSON
of the entry. The two cannot be told apart by their place, but the JSON of an entry never ends with
the JSON of another one (`Json.eq_nil_of_render_object_eq`), so the input determines both, and the last
hash of a chain determines all of its entries.
-/

namespace Sanad.Audit

/-! ## Entries -/

/-- `Drift`. Whether `Tools` is nil or empty is not recorded. -/
@[ext]
structure Drift where
  status : Bytes
  mode : Bytes
  blocked : Bool
  approved : Bytes
  observed : Bytes
  tools : List Bytes
  page : Bool
  deriving DecidableEq, Repr

/-- `types.Decision`, with any effect. -/
@[ext]
structure Decision where
  effect : Bytes
  reason : Bytes
  deriving DecidableEq, Repr

/-- `Entry`. `Delegation` is none if it is nil. -/
structure Entry where
  /-- `At` -/
  time : ℤ
  action : Bytes
  reason : Bytes
  server : Bytes
  principal : Bytes
  agent : Bytes
  passportID : Bytes
  delegation : Option (List Bytes)
  decision : Option Decision
  drift : Option Drift
  prevHash : Bytes
  hash : Bytes
  deriving DecidableEq, Repr

/-- What an entry records: its fields but the two hashes. No decision is recorded like one without an
effect and a reason. -/
@[ext]
structure Recorded where
  time : ℤ
  action : Bytes
  reason : Bytes
  server : Bytes
  principal : Bytes
  agent : Bytes
  passportID : Bytes
  delegation : Option (List Bytes)
  decision : Decision
  drift : Option Drift
  deriving DecidableEq, Repr

def Entry.recorded (e : Entry) : Recorded where
  time := e.time
  action := e.action
  reason := e.reason
  server := e.server
  principal := e.principal
  agent := e.agent
  passportID := e.passportID
  delegation := e.delegation
  decision := e.decision.getD ⟨[], []⟩
  drift := e.drift

/-- A string field with `omitempty`. -/
def nonEmptyString (s : Bytes) : Option Json := if s = [] then none else some (.ofString s)

/-- The JSON of a `Drift`. -/
def driftJson (d : Drift) : Json :=
  .ofOptionalFields
    [("status", some (.ofString d.status)), ("mode", nonEmptyString d.mode),
      ("blocked", some (.bool d.blocked)), ("approved", nonEmptyString d.approved),
      ("observed", nonEmptyString d.observed),
      ("tools", if d.tools = [] then none else some (.array (d.tools.map .ofString))),
      ("page", if d.page then some (.bool true) else none)]

/-- The `view` of `contentHash`, as JSON. -/
def Recorded.view (r : Recorded) : Json :=
  .ofFields
    [("at", .ofInt (Time.unixNano r.time)), ("action", .ofString r.action),
      ("reason", .ofString r.reason), ("server", .ofString r.server),
      ("principal", .ofString r.principal), ("agent", .ofString r.agent),
      ("passport_id", .ofString r.passportID),
      ("delegation", r.delegation.elim .null fun path => .array (path.map .ofString)),
      ("effect", .ofString r.decision.effect), ("decision_reason", .ofString r.decision.reason),
      ("drift", r.drift.elim .null driftJson)]

/-- The input of `contentHash`. The encoder writes a line feed after the value. -/
def contentInput (prev : Bytes) (e : Entry) : Bytes := prev ++ (e.recorded.view.render ++ [0x0a])

/-! ## The log -/

/-- The errors of `VerifyChain`. -/
inductive ChainError where
  /-- `audit: broken chain at entry %d (prev hash mismatch)` -/
  | brokenChain (i : ℕ)
  /-- `audit: tampered entry %d (content hash mismatch)` -/
  | tamperedEntry (i : ℕ)
  deriving DecidableEq, Repr

section

variable (H : Hash 32)

/-- `contentHash` -/
def contentHash (prev : Bytes) (e : Entry) : Bytes := H.sum (contentInput prev e)

/-- The loop of `VerifyChain`. -/
def verifyChainFrom (i : ℕ) (prev : Bytes) : List Entry → Except ChainError Unit
  | [] => .ok ()
  | e :: entries => do
    Except.require (e.prevHash = prev) (.brokenChain i)
    Except.require (e.hash = contentHash H prev e) (.tamperedEntry i)
    verifyChainFrom (i + 1) e.hash entries

/-- `VerifyChain` -/
def verifyChain (entries : List Entry) : Except ChainError Unit := verifyChainFrom H 0 [] entries

/-- `HashChainLog`: the fields that its lock guards. -/
structure HashChainLog where
  entries : List Entry
  last : Bytes
  deriving DecidableEq

/-- `NewHashChainLog` -/
def HashChainLog.new : HashChainLog := ⟨[], []⟩

/-- `commit`: the entry as stored, and the log with it. -/
def HashChainLog.commit (l : HashChainLog) (e : Entry) : Entry × HashChainLog :=
  let e := { e with prevHash := l.last }
  let e := { e with hash := contentHash H l.last e }
  (e, ⟨l.entries ++ [e], e.hash⟩)

/-- The hash of the last entry, empty if there is none. -/
def lastHash (entries : List Entry) : Bytes := Linked.lastTag Entry.hash [] entries

/-- What `VerifyChain` checks of an entry, after the hash of the one before. -/
structure ChainedAfter (prev : Bytes) (e : Entry) : Prop where
  prevHash : e.prevHash = prev
  hash : e.hash = contentHash H prev e
  /-- The first entry has no previous hash. -/
  length : prev = [] ∨ prev.length = 32

end

section

variable {H : Hash 32}

theorem length_contentHash (prev : Bytes) (e : Entry) : (contentHash H prev e).length = 32 :=
  H.length_sum _

theorem verifyChainFrom_eq_ok_iff {i : ℕ} {prev : Bytes} (hprev : prev = [] ∨ prev.length = 32)
    {entries : List Entry} :
    verifyChainFrom H i prev entries = .ok () ↔
      Linked.Valid (ChainedAfter H) Entry.hash prev entries := by
  induction entries generalizing i prev with
  | nil => exact iff_of_true rfl trivial
  | cons e entries ih =>
      rw [verifyChainFrom, Except.check_bind_eq_ok_iff, Except.check_bind_eq_ok_iff,
        Except.require_eq_ok_iff, Except.require_eq_ok_iff, Linked.Valid]
      constructor
      · rintro ⟨hprevHash, hhash, hrest⟩
        have hlength : e.hash.length = 32 := by rw [hhash, length_contentHash]
        exact ⟨⟨hprevHash, hhash, hprev⟩, (ih (.inr hlength)).mp hrest⟩
      · rintro ⟨he, hrest⟩
        have hlength : e.hash.length = 32 := by rw [he.hash, length_contentHash]
        exact ⟨he.prevHash, he.hash, (ih (.inr hlength)).mpr hrest⟩

/-- `VerifyChain` accepts the lists of entries that are chained one after the other. -/
theorem verifyChain_eq_ok_iff {entries : List Entry} :
    verifyChain H entries = .ok () ↔ Linked.Valid (ChainedAfter H) Entry.hash [] entries :=
  verifyChainFrom_eq_ok_iff (.inl rfl)

/-- A log whose entries verify, and which knows the hash of the last one. -/
structure HashChainLog.Intact (H : Hash 32) (l : HashChainLog) : Prop where
  verified : verifyChain H l.entries = .ok ()
  last : l.last = lastHash l.entries

theorem HashChainLog.intact_new : HashChainLog.new.Intact H := ⟨rfl, rfl⟩

theorem HashChainLog.Intact.length_last {l : HashChainLog} (hl : l.Intact H) :
    l.last = [] ∨ l.last.length = 32 := by
  rw [hl.last, lastHash]
  rcases List.eq_nil_or_concat' l.entries with hnil | ⟨entries, e, hconcat⟩
  · exact .inl (by rw [hnil]; rfl)
  · right
    have hvalid := verifyChain_eq_ok_iff.mp hl.verified
    rw [hconcat] at hvalid ⊢
    rw [Linked.lastTag_concat, (Linked.valid_concat.mp hvalid).2.hash, length_contentHash]

/-- What `commit` builds verifies. -/
theorem HashChainLog.Intact.commit {l : HashChainLog} (hl : l.Intact H) (e : Entry) :
    (l.commit H e).2.Intact H where
  verified := by
    rw [verifyChain_eq_ok_iff]
    exact Linked.valid_concat.mpr ⟨verifyChain_eq_ok_iff.mp hl.verified,
      ⟨hl.last, by rw [← lastHash, ← hl.last]; rfl, by rw [← lastHash, ← hl.last]; exact hl.length_last⟩⟩
  last := by
    change (l.commit H e).1.hash = Linked.lastTag Entry.hash [] (l.entries ++ [(l.commit H e).1])
    rw [Linked.lastTag_concat]

end

/-! ## What the hash covers -/

/-- Every string is valid UTF-8. -/
structure Drift.ValidUtf8 (d : Drift) : Prop where
  status : Utf8.valid d.status = true
  mode : Utf8.valid d.mode = true
  approved : Utf8.valid d.approved = true
  observed : Utf8.valid d.observed = true
  tools : ∀ t ∈ d.tools, Utf8.valid t = true

/-- Every string is valid UTF-8, and the time fits into an `int64`. -/
structure Recorded.Valid (r : Recorded) : Prop where
  time : Time.NanoRange r.time
  action : Utf8.valid r.action = true
  reason : Utf8.valid r.reason = true
  server : Utf8.valid r.server = true
  principal : Utf8.valid r.principal = true
  agent : Utf8.valid r.agent = true
  passportID : Utf8.valid r.passportID = true
  delegation : ∀ path ∈ r.delegation, ∀ id ∈ path, Utf8.valid id = true
  effect : Utf8.valid r.decision.effect = true
  decisionReason : Utf8.valid r.decision.reason = true
  drift : ∀ d ∈ r.drift, d.ValidUtf8

theorem nonEmptyString_injOn {s t : Bytes} (hs : Utf8.valid s = true) (ht : Utf8.valid t = true)
    (h : nonEmptyString s = nonEmptyString t) : s = t := by
  rw [nonEmptyString, nonEmptyString] at h
  split at h <;> split at h
  · next hs₀ ht₀ => rw [hs₀, ht₀]
  · cases h
  · cases h
  · exact Json.ofString_injOn hs ht (Option.some.inj h)

theorem toolsJson_injOn {s t : List Bytes} (hs : ∀ x ∈ s, Utf8.valid x = true)
    (ht : ∀ x ∈ t, Utf8.valid x = true)
    (h : (if s = [] then none else some (Json.array (s.map .ofString))) =
      if t = [] then none else some (Json.array (t.map .ofString))) : s = t := by
  split at h <;> split at h
  · next hs₀ ht₀ => rw [hs₀, ht₀]
  · cases h
  · cases h
  · exact Json.map_ofString_injOn hs ht (Json.array.inj (Option.some.inj h))

theorem driftJson_injOn {d d' : Drift} (hd : d.ValidUtf8) (hd' : d'.ValidUtf8)
    (h : driftJson d = driftJson d') : d = d' := by
  have hnames : (["status", "mode", "blocked", "approved", "observed", "tools", "page"].map
      fun name => Json.quote (Bytes.ascii name)).Nodup := by
    decide +kernel
  have hfields := Json.ofOptionalFields_injective h rfl hnames
  simp only [List.cons.injEq, Prod.mk.injEq, true_and, and_true, Option.some.injEq,
    Json.bool.injEq] at hfields
  obtain ⟨hstatus, hmode, hblocked, happroved, hobserved, htools, hpage⟩ := hfields
  refine Drift.ext (Json.ofString_injOn hd.status hd'.status hstatus)
    (nonEmptyString_injOn hd.mode hd'.mode hmode) hblocked
    (nonEmptyString_injOn hd.approved hd'.approved happroved)
    (nonEmptyString_injOn hd.observed hd'.observed hobserved)
    (toolsJson_injOn hd.tools hd'.tools htools) ?_
  cases hp : d.page <;> cases hp' : d'.page <;> simp [hp, hp'] at hpage ⊢

theorem driftMember_injOn {d d' : Option Drift} (hd : ∀ x ∈ d, x.ValidUtf8)
    (hd' : ∀ x ∈ d', x.ValidUtf8) (h : d.elim Json.null driftJson = d'.elim .null driftJson) : d = d' := by
  cases d with
  | none =>
      cases d' with
      | none => rfl
      | some y => cases h
  | some x =>
      cases d' with
      | none => cases h
      | some y => rw [driftJson_injOn (hd x rfl) (hd' y rfl) h]

theorem delegationMember_injOn {p p' : Option (List Bytes)}
    (hp : ∀ x ∈ p, ∀ id ∈ x, Utf8.valid id = true) (hp' : ∀ x ∈ p', ∀ id ∈ x, Utf8.valid id = true)
    (h : (p.elim Json.null fun path => .array (path.map Json.ofString)) =
      p'.elim .null fun path => .array (path.map Json.ofString)) : p = p' := by
  cases p with
  | none =>
      cases p' with
      | none => rfl
      | some y => cases h
  | some x =>
      cases p' with
      | none => cases h
      | some y => rw [Json.map_ofString_injOn (hp x rfl) (hp' y rfl) (Json.array.inj h)]

theorem view_injOn {r r' : Recorded} (hr : r.Valid) (hr' : r'.Valid) (h : r.view = r'.view) :
    r = r' := by
  have hfields := Json.object.inj h
  simp only [List.map_cons, List.map_nil, List.cons.injEq, Prod.mk.injEq, true_and, and_true]
    at hfields
  obtain ⟨htime, haction, hreason, hserver, hprincipal, hagent, hpassport, hdelegation, heffect,
    hdecision, hdrift⟩ := hfields
  exact Recorded.ext (Time.unixNano_injOn hr.time hr'.time (Json.ofInt_injective htime))
    (Json.ofString_injOn hr.action hr'.action haction)
    (Json.ofString_injOn hr.reason hr'.reason hreason)
    (Json.ofString_injOn hr.server hr'.server hserver)
    (Json.ofString_injOn hr.principal hr'.principal hprincipal)
    (Json.ofString_injOn hr.agent hr'.agent hagent)
    (Json.ofString_injOn hr.passportID hr'.passportID hpassport)
    (delegationMember_injOn hr.delegation hr'.delegation hdelegation)
    (Decision.ext (Json.ofString_injOn hr.effect hr'.effect heffect)
      (Json.ofString_injOn hr.decisionReason hr'.decisionReason hdecision))
    (driftMember_injOn hr.drift hr'.drift hdrift)

/-- The JSON of an entry does not end with the JSON of another one. -/
theorem eq_nil_of_render_view_eq {a : Bytes} {r r' : Recorded}
    (h : r.view.render = a ++ r'.view.render) : a = [] := by
  have hhead : (Json.quote (Bytes.ascii "at")).bytes.head? = some 0x61 := by decide +kernel
  exact Json.eq_nil_of_render_object_eq hhead (by decide) h

/-- The hash input determines the previous hash and what the entry records. -/
theorem contentInput_injective {prev prev' : Bytes} {e e' : Entry}
    (hprev : prev = [] ∨ prev.length = 32) (hprev' : prev' = [] ∨ prev'.length = 32)
    (h : contentInput prev e = contentInput prev' e') :
    prev = prev' ∧ e.recorded.view = e'.recorded.view := by
  rw [contentInput, contentInput, ← List.append_assoc, ← List.append_assoc] at h
  have hcontent := (List.append_inj' h rfl).1
  have hinj : prev.length = prev'.length → prev = prev' ∧ e.recorded.view = e'.recorded.view := by
    intro hlength
    obtain ⟨hp, hview⟩ := List.append_inj hcontent hlength
    exact ⟨hp, Json.render_injective hview⟩
  rcases hprev with rfl | hlength
  · rcases hprev' with rfl | hlength'
    · exact hinj rfl
    · rw [eq_nil_of_render_view_eq hcontent] at hlength'
      cases hlength'
  · rcases hprev' with rfl | hlength'
    · rw [eq_nil_of_render_view_eq hcontent.symm] at hlength
      cases hlength
    · exact hinj (hlength.trans hlength'.symm)

/-! ## Tampering -/

/-- The byte strings that `VerifyChain` hashes, for entries that it accepts. -/
def chainInputs : Bytes → List Entry → List Bytes
  | _, [] => []
  | prev, e :: entries => contentInput prev e :: chainInputs e.hash entries

theorem valid_chainInputs {H : Hash 32} {Q : List Bytes} {prev : Bytes} {entries : List Entry}
    (hQ : chainInputs prev entries ⊆ Q)
    (h : Linked.Valid (ChainedAfter H) Entry.hash prev entries) :
    Linked.Valid (fun p e => ChainedAfter H p e ∧ contentInput p e ∈ Q) Entry.hash prev entries := by
  induction entries generalizing prev with
  | nil => trivial
  | cons e entries ih =>
      rw [chainInputs, List.cons_subset] at hQ
      exact ⟨⟨h.1, hQ.1⟩, ih hQ.2 h.2⟩

/-- Tamper evidence: two lists of entries that verify and end in one hash record the same, entry by
entry, or two of the strings hashed for them collide. -/
theorem verifyChain_tamper_evident (H : Hash 32) (es es' : List Entry)
    (hes : verifyChain H es = .ok ()) (hes' : verifyChain H es' = .ok ())
    (hvalid : ∀ e ∈ es, e.recorded.Valid) (hvalid' : ∀ e ∈ es', e.recorded.Valid)
    (hlast : lastHash es = lastHash es') :
    es.map Entry.recorded = es'.map Entry.recorded ∨
      H.Collides (chainInputs [] es ++ chainInputs [] es') := by
  by_cases hQ : H.Collides (chainInputs [] es ++ chainInputs [] es')
  · exact .inr hQ
  · left
    have hlinked := (valid_chainInputs (List.subset_append_left _ (chainInputs [] es'))
      (verifyChain_eq_ok_iff.mp hes)).and hvalid
    have hlinked' := (valid_chainInputs (List.subset_append_right (chainInputs [] es) _)
      (verifyChain_eq_ok_iff.mp hes')).and hvalid'
    refine Linked.Valid.map_eq ?_ ?_ hlinked hlinked' hlast
    · rintro p e ⟨⟨he, -⟩, -⟩ hnil
      have hlength := length_contentHash (H := H) p e
      rw [← he.hash, hnil] at hlength
      cases hlength
    · rintro p p' e e' ⟨⟨he, hin⟩, hrecorded⟩ ⟨⟨he', hin'⟩, hrecorded'⟩ hhash
      rw [he.hash, he'.hash] at hhash
      have hinput := Hash.eq_of_not_collides hQ hin hin' hhash
      obtain ⟨hprev, hview⟩ := contentInput_injective he.length he'.length hinput
      exact ⟨hprev, view_injOn hrecorded hrecorded' hview⟩

/-! Two logs of one entry; only one of them has a decision, without an effect and a reason. -/

namespace ChainSample

def recorded : Recorded where
  time := 62135596801 * Time.second
  action := Bytes.ascii "drift"
  reason := []
  server := Bytes.ascii "files"
  principal := []
  agent := []
  passportID := []
  delegation := none
  decision := ⟨[], []⟩
  drift := some ⟨Bytes.ascii "drifted", [], true, [], [], [Bytes.ascii "read"], false⟩

theorem valid_recorded : recorded.Valid where
  time := by decide
  action := by decide
  reason := by decide
  server := by decide
  principal := by decide
  agent := by decide
  passportID := by decide
  delegation := by rintro path ⟨⟩
  effect := by decide
  decisionReason := by decide
  drift := by
    rintro d ⟨⟩
    exact ⟨by decide, by decide, by decide, by decide, by decide⟩

def entry (decision : Option Decision) : Entry :=
  { recorded with decision, prevHash := [], hash := [] }

def log (decision : Option Decision) : HashChainLog :=
  (HashChainLog.new.commit (.checksum 32) (entry decision)).2

theorem valid_log {decision : Option Decision} (h : (entry decision).recorded = recorded) :
    ∀ e ∈ (log decision).entries, e.recorded.Valid := by
  intro e he
  rw [List.mem_singleton.mp he]
  exact h ▸ valid_recorded

end ChainSample

open ChainSample in
theorem verifyChain_tamper_evident_no_decision :
    (log none).entries ≠ (log (some ⟨[], []⟩)).entries ∧
      ((log none).entries.map Entry.recorded = (log (some ⟨[], []⟩)).entries.map Entry.recorded ∨
        (Hash.checksum 32).Collides
          (chainInputs [] (log none).entries ++ chainInputs [] (log (some ⟨[], []⟩)).entries)) := by
  refine ⟨fun h => ?_, verifyChain_tamper_evident (.checksum 32) _ _
    (HashChainLog.intact_new.commit (entry none)).verified
    (HashChainLog.intact_new.commit (entry (some ⟨[], []⟩))).verified
    (valid_log rfl) (valid_log rfl) rfl⟩
  have hdecision := congrArg (List.map Entry.decision) h
  exact absurd hdecision (by decide)

end Sanad.Audit
