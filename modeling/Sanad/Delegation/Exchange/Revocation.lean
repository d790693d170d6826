import Sanad.Delegation.Exchange

/-! # Revocation of exchanged tokens

Ids are drawn fresh, so the map of parents is a forest that only grows: the walk of `Verify` visits
the lineage of a token and no id twice. The lineage is what the token was obtained from by
exchanges, whatever was checked before a revocation and issued after it.
-/

namespace Sanad.Delegation

/-! ## The walk -/

section

variable {S : SignatureScheme} {a : ExchangeAuthority}

/-- The walk is a search for the first revoked id of the lineage. -/
theorem walk_eq (hgrown : Forest.Grown [] a.parent) {seen : List Bytes} {id : Bytes}
    (hseen : ∀ x ∈ Forest.lineage [] a.parent id, x ∉ seen) :
    a.walk seen id =
      ((Forest.lineage [] a.parent id).find? fun x => x ∈ a.revoked).elim .root .revoked := by
  -- What the walk has seen is below the id, so it is never in the lineage that is left.
  induction hl : Forest.lineage [] a.parent id generalizing seen id with
  | nil =>
      rw [ExchangeAuthority.walk, if_pos ((Forest.lineage_eq_nil_iff hgrown).mp hl)]
      rfl
  | cons y l ih =>
      have hne : id ≠ [] := fun hid => by
        rw [(Forest.lineage_eq_nil_iff hgrown).mpr hid] at hl
        cases hl
      have hnodup := Forest.nodup_lineage hgrown id
      rw [Forest.lineage_eq hgrown hne] at hl hseen hnodup
      obtain ⟨rfl, hrest⟩ := List.cons.inj hl
      rw [ExchangeAuthority.walk, if_neg hne, if_neg (hseen id List.mem_cons_self)]
      by_cases hrevoked : id ∈ a.revoked
      · rw [if_pos hrevoked, List.find?_cons_of_pos (by simpa using hrevoked)]
        rfl
      · rw [if_neg hrevoked, List.find?_cons_of_neg (by simpa using hrevoked)]
        refine ih (fun x hx => ?_) hrest
        rw [List.mem_cons, not_or]
        refine ⟨?_, hseen x (List.mem_cons_of_mem id hx)⟩
        rintro rfl
        exact (List.nodup_cons.mp hnodup).1 hx

/-- A token is accepted exactly if it is signed, unexpired, and nothing of its lineage is revoked. -/
theorem verify_token_eq_ok_iff (hgrown : Forest.Grown [] a.parent) {t : Token} {now : ℤ} :
    a.verify S t now = .ok () ↔
      Sigctx.verify S .exchangeToken (S.publicKey a.priv) (tokenMsg t) t.signature = true ∧
        (t.notAfter = 0 ∨ now < t.notAfter) ∧
          ∀ x ∈ Forest.lineage [] a.parent t.id, x ∉ a.revoked := by
  rw [ExchangeAuthority.verify, Except.check_bind_eq_ok_iff, Except.check_bind_eq_ok_iff,
    Except.require_eq_ok_iff, Except.require_eq_ok_iff, walk_eq hgrown (by simp)]
  cases hfind : (Forest.lineage [] a.parent t.id).find? fun x => x ∈ a.revoked with
  | none =>
      rw [List.find?_eq_none] at hfind
      simp only [Option.elim_none, and_true, and_congr_right_iff, iff_self_and]
      exact fun _ _ x hx => by simpa using hfind x hx
  | some x =>
      have hmem := List.mem_of_find?_eq_some hfind
      have hrevoked := List.find?_some hfind
      simp only [Option.elim_some, reduceCtorEq, and_false, false_iff, not_and, not_forall]
      exact fun _ _ => ⟨x, hmem, by simpa using hrevoked⟩

end

/-! ## What has been issued -/

/-- The id of the token that another was exchanged from, empty if there is none. -/
def idOrEmpty (parent : Option Token) : Bytes := (parent.map Token.id).getD []

/-- The map of parents records what has been issued, and nothing else. -/
structure Recorded (s : ExchangeState) : Prop where
  grown : Forest.Grown [] s.authority.parent
  issued : ∀ parent t, (parent, t) ∈ s.issued → t.id ∈ s.authority.parent.map Prod.fst ∧
    Forest.parentOf [] s.authority.parent t.id = idOrEmpty parent
  entries : ∀ e ∈ s.authority.parent, ∃ parent t, (parent, t) ∈ s.issued ∧ t.id = e.1 ∧
    idOrEmpty parent = e.2

/-- A token with the id x was obtained from the token with the given id by exchanges, any number of
them. -/
inductive Reaches (s : ExchangeState) (id : Bytes) : Bytes → Prop where
  | self : Reaches s id id
  | exchange {t t' : Token} (h : Reaches s id t.id) (hissued : (some t, t') ∈ s.issued) :
      Reaches s id t'.id

theorem recorded_new {priv kid : Bytes} {ttl : ℤ} {a : ExchangeAuthority}
    (h : ExchangeAuthority.new priv kid ttl = .ok a) : Recorded (.new a) := by
  rw [ExchangeAuthority.new, Except.check_bind_eq_ok_iff] at h
  obtain ⟨-, h⟩ := h
  cases h
  exact ⟨.nil, by simp [ExchangeState.new], by simp [ExchangeState.new]⟩

section

variable {S : SignatureScheme} {s s' : ExchangeState}

/-- A token with a fresh id is recorded. -/
theorem Recorded.add (hs : Recorded s) {parent : Option Token} {t : Token}
    (hparent : t.parentID = idOrEmpty parent) (hne : t.id ≠ [])
    (hkeys : t.id ∉ s.authority.parent.map Prod.fst)
    (hvalues : t.id ∉ s.authority.parent.map Prod.snd) (hself : t.id ≠ t.parentID) :
    Recorded (s.add parent t) := by
  -- The id is new, so writing it to the map overwrites nothing.
  have hfilter : s.authority.parent.filter (fun e => e.1 ≠ t.id) = s.authority.parent := by
    rw [List.filter_eq_self]
    intro e he
    refine decide_eq_true fun heq => hkeys ?_
    rw [← heq]
    exact List.mem_map_of_mem he
  have hmap : (s.add parent t).authority.parent = (t.id, t.parentID) :: s.authority.parent :=
    congrArg (List.cons _) hfilter
  refine ⟨?_, ?_, ?_⟩ <;> rw [hmap]
  · exact .cons hne hkeys hvalues hself hs.grown
  · intro p t₁ hmem
    rcases List.mem_cons.mp hmem with heq | hmem
    · cases heq
      rw [Forest.parentOf_cons_self, hparent]
      exact ⟨List.mem_cons_self, rfl⟩
    · obtain ⟨hkey, hlink⟩ := hs.issued p t₁ hmem
      have hdiff : t₁.id ≠ t.id := fun heq => hkeys (heq ▸ hkey)
      rw [Forest.parentOf_cons_of_ne hdiff]
      exact ⟨List.mem_cons_of_mem _ hkey, hlink⟩
  · intro e he
    rcases List.mem_cons.mp he with rfl | he
    · exact ⟨parent, t, List.mem_cons_self, rfl, hparent.symm⟩
    · obtain ⟨p, t₁, hmem, hid, hlink⟩ := hs.entries e he
      exact ⟨p, t₁, List.mem_cons_of_mem _ hmem, hid, hlink⟩

theorem Recorded.step {e : ExchangeEvent} (hs : Recorded s) (hstep : ExchangeStep S s e s')
    (hfresh : freshID s e = true) : Recorded s' := by
  cases hstep with
  | issueRoot principal subject g id now =>
      simp only [freshID, ExchangeState.known, List.mem_append, not_or, decide_eq_true_eq] at hfresh
      obtain ⟨hne, ⟨hkeys, hvalues⟩, -⟩ := hfresh
      exact hs.add rfl hne hkeys hvalues hne
  | @issue i x hx id now =>
      simp only [freshID, ExchangeState.known, List.mem_append, not_or, decide_eq_true_eq] at hfresh
      obtain ⟨hne, ⟨hkeys, hvalues⟩, hpending⟩ := hfresh
      have hself : id ≠ x.parent.id := by
        rintro rfl
        exact hpending (List.mem_map_of_mem (List.mem_of_getElem? hx))
      have herased : Recorded { s with pending := s.pending.eraseIdx i } :=
        ⟨hs.grown, hs.issued, hs.entries⟩
      exact herased.add rfl hne hkeys hvalues hself
  | revoke id => exact ⟨hs.grown, hs.issued, hs.entries⟩
  | _ => exact ⟨hs.grown, hs.issued, hs.entries⟩

/-- The lineage of an id is what it was obtained from by exchanges. -/
theorem Recorded.reaches_of_mem_lineage (hs : Recorded s) {id x : Bytes}
    (hmem : id ∈ Forest.lineage [] s.authority.parent x) : Reaches s id x := by
  induction hl : Forest.lineage [] s.authority.parent x generalizing x with
  | nil =>
      rw [hl] at hmem
      cases hmem
  | cons y l ih =>
      have hne : x ≠ [] := fun hx => by
        rw [(Forest.lineage_eq_nil_iff hs.grown).mpr hx] at hl
        cases hl
      rw [Forest.lineage_eq hs.grown hne] at hl hmem
      rcases List.mem_cons.mp hmem with rfl | hmem
      · exact .self
      · -- The rest of the lineage is that of the parent, which is the id of an issued token.
        have hreach := ih hmem (List.cons.inj hl).2
        have hparent : Forest.parentOf [] s.authority.parent x ≠ [] := by
          intro heq
          rw [heq, Forest.lineage_root hs.grown] at hmem
          cases hmem
        obtain ⟨parent, t, hissued, htid, hlink⟩ :=
          hs.entries _ (Forest.mem_of_parentOf_ne hparent)
        dsimp only at htid hlink
        rw [← htid]
        cases parent with
        | none => exact absurd hlink.symm hparent
        | some p =>
            have hpid : p.id = Forest.parentOf [] s.authority.parent x := hlink
            rw [← hpid] at hreach
            exact hreach.exchange hissued

theorem Recorded.mem_lineage_of_reaches (hs : Recorded s) {id x : Bytes} (hid : id ≠ [])
    (hreach : Reaches s id x) : id ∈ Forest.lineage [] s.authority.parent x := by
  induction hreach with
  | self =>
      rw [Forest.lineage_eq hs.grown hid]
      exact List.mem_cons_self
  | @exchange t t' _ hissued ih =>
      obtain ⟨hkey, hlink⟩ := hs.issued _ _ hissued
      rw [Forest.lineage_eq hs.grown (hs.grown.ne_root hkey), hlink]
      exact List.mem_cons_of_mem _ ih

theorem mem_revoked_iff {es : List ExchangeEvent} {id : Bytes}
    (hrun : Transition.run (exchangeStep S) s es = some s') :
    id ∈ s'.authority.revoked ↔ id ∈ s.authority.revoked ∨ .revoke id ∈ es := by
  induction es generalizing s with
  | nil =>
      cases hrun
      simp
  | cons e es ih =>
      obtain ⟨s₁, hstep, hrun⟩ := Transition.run_cons_eq_some_iff.mp hrun
      have hone : id ∈ s₁.authority.revoked ↔ id ∈ s.authority.revoked ∨ .revoke id = e := by
        cases exchangeStep_eq_some hstep with
        | revoke id' => simp [ExchangeAuthority.revoke, or_comm]
        | _ => simp [ExchangeState.add, ExchangeAuthority.record]
      rw [ih hrun, hone, List.mem_cons, or_assoc]

end

/-- In every interleaving with fresh ids: once an id has been revoked, the token with that id and every
token obtained from it by exchanges are refused; a signed and unexpired token is accepted if nothing
that it was obtained from has been revoked; and no walk comes to an id twice. -/
theorem revoked_with_descendants (S : SignatureScheme) (priv kid : Bytes) (ttl : ℤ)
    (a : ExchangeAuthority) (hnew : ExchangeAuthority.new priv kid ttl = .ok a)
    (es : List ExchangeEvent) (s : ExchangeState)
    (hrun : Transition.run (exchangeStep S) (.new a) es = some s)
    (hfresh : Transition.Along (exchangeStep S) (fun s e _ => freshID s e = true) (.new a) es) :
    (∀ id, id ≠ [] → .revoke id ∈ es → ∀ t now, Reaches s id t.id →
      s.authority.verify S t now ≠ .ok ()) ∧
    (∀ t now,
      Sigctx.verify S .exchangeToken (S.publicKey s.authority.priv) (tokenMsg t) t.signature = true →
      (t.notAfter = 0 ∨ now < t.notAfter) → (∀ id, Reaches s id t.id → .revoke id ∉ es) →
      s.authority.verify S t now = .ok ()) ∧
    ∀ id dup, s.authority.walk [] id ≠ .duplicate dup := by
  have hs : Recorded s := hfresh.invariant
    (fun s e s' hstep hfresh hs => hs.step (exchangeStep_eq_some hstep) hfresh) hrun
    (recorded_new hnew)
  have hrevoked : ∀ id, id ∈ s.authority.revoked ↔ .revoke id ∈ es := by
    intro id
    rw [mem_revoked_iff hrun]
    rw [ExchangeAuthority.new, Except.check_bind_eq_ok_iff] at hnew
    obtain ⟨-, hnew⟩ := hnew
    cases hnew
    simp [ExchangeState.new]
  refine ⟨?_, ?_, ?_⟩
  · intro id hid hmem t now hreach hverify
    obtain ⟨-, -, hlineage⟩ := (verify_token_eq_ok_iff hs.grown).mp hverify
    exact hlineage id (hs.mem_lineage_of_reaches hid hreach) ((hrevoked id).mpr hmem)
  · intro t now hsigned hexpiry hnone
    refine (verify_token_eq_ok_iff hs.grown).mpr ⟨hsigned, hexpiry, fun id hmem hid => ?_⟩
    exact hnone id (hs.reaches_of_mem_lineage hmem) ((hrevoked id).mp hid)
  · intro id dup hwalk
    rw [walk_eq hs.grown (by simp)] at hwalk
    cases hfind : (Forest.lineage [] s.authority.parent id).find? fun x => x ∈ s.authority.revoked with
    | none =>
        rw [hfind] at hwalk
        cases hwalk
    | some x =>
        rw [hfind] at hwalk
        cases hwalk

/-! The token r is exchanged for x by a call that is under way when r is revoked. -/

namespace ExchangeSample

def authority : ExchangeAuthority :=
  ⟨List.replicate 64 7, Bytes.ascii "k", 3600 * Time.second, [], ∅⟩

/-- The grant for one tool, up to a time. -/
def grant (notAfter : ℤ) : Grant := ⟨[Bytes.ascii "read"], [], notAfter, none⟩

/-- The token of the authority with the id, issued at a time. -/
def token (parentID id : String) (notAfter now : ℤ) : Token :=
  authority.token .free (Bytes.ascii parentID) (Bytes.ascii "p") (Bytes.ascii "s") (grant notAfter)
    (Bytes.ascii id) now

def root (id : String) (notAfter now : ℤ) : ExchangeEvent :=
  .issueRoot (Bytes.ascii "p") (Bytes.ascii "s") (grant notAfter) (Bytes.ascii id) now

/-- The exchange of the root token r for a grant without an expiry. -/
def exchange : PendingExchange := ⟨token "" "r" 0 1, Bytes.ascii "s", grant 0⟩

def events : List ExchangeEvent :=
  [root "r" 0 1, .check exchange 2, .revoke (Bytes.ascii "r"), .issue 0 (Bytes.ascii "x") 3]

/-- The state after the events. -/
def final (es : List ExchangeEvent) : ExchangeState :=
  (Transition.run (exchangeStep .free) (.new authority) es).getD (.new authority)

theorem run_eq_final {es : List ExchangeEvent}
    (h : (Transition.run (exchangeStep .free) (.new authority) es).isSome = true) :
    Transition.run (exchangeStep .free) (.new authority) es = some (final es) := by
  obtain ⟨s, hs⟩ := Option.isSome_iff_exists.mp h
  rw [final, hs]
  rfl

end ExchangeSample

open ExchangeSample in
/-- The token that was under way is refused. -/
theorem revoked_with_descendants_under_way :
    (some (token "" "r" 0 1), token "r" "x" 0 3) ∈ (final events).issued ∧
      (final events).authority.verify .free (token "r" "x" 0 3) 4 ≠ .ok () := by
  have hfresh : Transition.Along (exchangeStep .free) (fun s e _ => freshID s e = true)
      (.new authority) events := by
    decide +kernel
  have hissued : (some (token "" "r" 0 1), token "r" "x" 0 3) ∈ (final events).issued := by
    decide +kernel
  obtain ⟨hrefused, -, -⟩ := revoked_with_descendants .free (List.replicate 64 7)
    (Bytes.ascii "k") 0 authority rfl events (final events) (run_eq_final (by decide +kernel)) hfresh
  exact ⟨hissued, hrefused (Bytes.ascii "r") (by decide) (by decide) (token "r" "x" 0 3) 4
    (Reaches.self.exchange hissued)⟩

end Sanad.Delegation
