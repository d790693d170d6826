import Mathlib.Data.Multiset.UnionInter
import Mathlib.Tactic.Abel
import Sanad.Workload.Enrollment

/-! # Nonces and budgets are spent once

A nonce is in one place at a time: drawn, in the table, with a call of `Issue`, or gone. A use of a
registration is either left in its grant or with the call that spent it. Every step moves them from
one place to the next, so neither can be had twice, however the calls interleave.
-/

namespace Sanad.Workload

variable {S : SignatureScheme} {hmac : Bytes → Bytes → Bytes} {a : Authority} {s s' : Enrollment}

/-- The calls of `Issue` that have been attested, those that have returned a credential included. -/
def Enrollment.spent (s : Enrollment) : Multiset Attested :=
  s.attested + (s.issued : Multiset Issued).map (·.toAttested)

/-- The calls of `Issue` that have spent a nonce. -/
def Enrollment.calls (s : Enrollment) : Multiset Presented :=
  s.consumed + s.spent.map (·.toPresented)

theorem coe_eq_cons_eraseIdx {α : Type} {l : List α} {i : ℕ} {x : α} (h : l[i]? = some x) :
    (l : Multiset α) = x ::ₘ (l.eraseIdx i : Multiset α) := by
  obtain ⟨hi, rfl⟩ := List.getElem?_eq_some_iff.mp h
  exact Multiset.coe_eq_coe.mpr (List.getElem_cons_eraseIdx_perm hi).symm

theorem coe_eraseIdx_le {α : Type} (l : List α) (i : ℕ) :
    (l.eraseIdx i : Multiset α) ≤ (l : Multiset α) :=
  Multiset.coe_le.mpr (List.eraseIdx_sublist l i).subperm

/-! ## Nonces -/

/-- The call spent its nonce within the window that opened when the nonce was handed out. -/
def InWindow (a : Authority) (handedOut : List (Bytes × ℤ)) (x : Presented) : Prop :=
  ∃ t, (x.nonce, t) ∈ handedOut ∧ t ≤ x.consumedAt ∧ x.consumedAt < t + a.nonceTTL

structure NonceInv (a : Authority) (s : Enrollment) : Prop where
  /-- A nonce is drawn once. -/
  once : (s.drawn.map Prod.fst ++ s.handedOut.map Prod.fst).Nodup
  drawn : ∀ n ∈ s.drawn.map Prod.fst ++ s.handedOut.map Prod.fst, n ∈ s.draws
  past : ∀ x ∈ s.drawn, x.2 ≤ s.clock
  /-- A nonce is in the table or with one call. -/
  live : ((s.nonces.keys : Multiset Bytes) + s.calls.map (·.nonce)).Nodup
  table : ∀ e ∈ s.nonces.entries,
    ∃ t, (e.1, t) ∈ s.handedOut ∧ t ≤ s.clock ∧ e.2 ≤ t + a.nonceTTL
  calls : ∀ x ∈ s.calls, InWindow a s.handedOut x

theorem nonceInv_new (clock : ℤ) : NonceInv a (.new clock) where
  once := List.nodup_nil
  drawn := by simp [Enrollment.new]
  past := by simp [Enrollment.new]
  live := by simp [Enrollment.new, Enrollment.calls, Enrollment.spent]
  table := by simp [Enrollment.new]
  calls := by simp [Enrollment.new, Enrollment.calls, Enrollment.spent]

/-- What is live has been handed out. -/
theorem NonceInv.mem_handedOut (hs : NonceInv a s) {n : Bytes}
    (hn : n ∈ (s.nonces.keys : Multiset Bytes) + s.calls.map (·.nonce)) :
    n ∈ s.handedOut.map Prod.fst := by
  rcases Multiset.mem_add.mp hn with hkey | hcall
  · obtain ⟨e, he, rfl⟩ := List.mem_map.mp (Multiset.mem_coe.mp hkey)
    obtain ⟨t, ht, -, -⟩ := hs.table e he
    exact List.mem_map.mpr ⟨_, ht, rfl⟩
  · obtain ⟨x, hx, rfl⟩ := Multiset.mem_map.mp hcall
    obtain ⟨t, ht, -, -⟩ := hs.calls x hx
    exact List.mem_map.mpr ⟨_, ht, rfl⟩

/-- The invariant is kept when nonces are only dropped and time passes. -/
theorem NonceInv.of_le (hs : NonceInv a s) (hclock : s.clock ≤ s'.clock)
    (hdraws : s'.draws = s.draws) (hdrawn : s'.drawn.Sublist s.drawn)
    (hout : s'.handedOut = s.handedOut) (hnonces : s'.nonces.entries.Sublist s.nonces.entries)
    (hcalls : s'.calls ≤ s.calls) : NonceInv a s' where
  once := by
    rw [hout]
    exact hs.once.sublist ((hdrawn.map Prod.fst).append_right _)
  drawn n hn := by
    rw [hout] at hn
    rw [hdraws]
    exact hs.drawn n (((hdrawn.map Prod.fst).append_right _).subset hn)
  past x hx := (hs.past x (hdrawn.subset hx)).trans hclock
  live := by
    refine Multiset.nodup_of_le ?_ hs.live
    exact add_le_add (Multiset.coe_le.mpr (hnonces.map Sigma.fst).subperm)
      (Multiset.map_le_map hcalls)
  table e he := by
    obtain ⟨t, ht, htime, hle⟩ := hs.table e (hnonces.subset he)
    exact ⟨t, hout ▸ ht, htime.trans hclock, hle⟩
  calls x hx := hout ▸ hs.calls x (Multiset.mem_of_le hcalls hx)

theorem NonceInv.drawNonce (hs : NonceInv a s) {n : Bytes} (hfresh : n ∉ s.draws) :
    NonceInv a { s with drawn := s.drawn ++ [(n, s.clock)], draws := n :: s.draws } where
  once := by
    have hperm : (List.map Prod.fst (s.drawn ++ [(n, s.clock)]) ++ s.handedOut.map Prod.fst).Perm
        (n :: (s.drawn.map Prod.fst ++ s.handedOut.map Prod.fst)) := by
      simp
    refine hperm.nodup_iff.mpr (List.nodup_cons.mpr ⟨fun hn => ?_, hs.once⟩)
    exact hfresh (hs.drawn n hn)
  drawn m hm := by
    simp only [List.map_append, List.map_cons, List.map_nil, List.append_assoc, List.mem_append,
      List.mem_singleton] at hm
    rcases hm with hm | rfl | hm
    · exact List.mem_cons_of_mem n (hs.drawn m (List.mem_append_left _ hm))
    · exact List.mem_cons_self
    · exact List.mem_cons_of_mem n (hs.drawn m (List.mem_append_right _ hm))
  past x hx := by
    rcases List.mem_append.mp hx with hx | hx
    · exact hs.past x hx
    · rw [List.mem_singleton.mp hx]
  live := hs.live
  table := hs.table
  calls := hs.calls

theorem NonceInv.nonce (hs : NonceInv a s) {i : ℕ} {n : Bytes} {now : ℤ}
    (hdrawn : s.drawn[i]? = some (n, now)) :
    NonceInv a { s with
      nonces := (sweep s.nonces now).insert n (now + a.nonceTTL)
      drawn := s.drawn.eraseIdx i
      handedOut := (n, s.clock) :: s.handedOut } := by
  have hmem : (n, now) ∈ s.drawn := List.mem_of_getElem? hdrawn
  have hperm : (s.drawn.map Prod.fst).Perm (n :: (s.drawn.eraseIdx i).map Prod.fst) :=
    (Multiset.coe_eq_coe.mp (coe_eq_cons_eraseIdx hdrawn)).map Prod.fst
  have hpool : ((s.drawn.eraseIdx i).map Prod.fst ++ n :: s.handedOut.map Prod.fst).Perm
      (s.drawn.map Prod.fst ++ s.handedOut.map Prod.fst) :=
    List.perm_middle.trans (hperm.symm.append_right _)
  -- the nonce comes from a call that has not handed it out, so it is not live yet
  have hnotOut : n ∉ s.handedOut.map Prod.fst := fun hout =>
    List.disjoint_of_nodup_append hs.once (List.mem_map.mpr ⟨_, hmem, rfl⟩) hout
  exact {
    once := hpool.nodup_iff.mpr hs.once
    drawn := fun m hm => hs.drawn m (hpool.mem_iff.mp hm)
    past := fun x hx => hs.past x ((List.eraseIdx_sublist _ _).subset hx)
    live := by
      have hnotLive : n ∉ (s.nonces.keys : Multiset Bytes) + s.calls.map (·.nonce) :=
        fun hn => hnotOut (hs.mem_handedOut hn)
      refine Multiset.nodup_of_le ?_ (Multiset.nodup_cons.mpr ⟨hnotLive, hs.live⟩)
      rw [← Multiset.cons_add, AList.keys, AList.entries_insert, List.keys, List.map_cons]
      refine add_le_add (Multiset.cons_le_cons n (Multiset.coe_le.mpr ?_)) le_rfl
      exact (((List.kerase_sublist _ _).trans List.filter_sublist).map Sigma.fst).subperm
    table := by
      intro e he
      rw [AList.entries_insert] at he
      rcases List.mem_cons.mp he with rfl | he
      · exact ⟨s.clock, List.mem_cons_self, le_rfl, by
          have := hs.past _ hmem
          simpa using this⟩
      · have hold := (List.mem_filter.mp ((List.kerase_sublist _ _).subset he)).1
        obtain ⟨t, ht, htime, hle⟩ := hs.table e hold
        exact ⟨t, List.mem_cons_of_mem _ ht, htime, hle⟩
    calls := by
      intro x hx
      obtain ⟨t, ht, hin⟩ := hs.calls x hx
      exact ⟨t, List.mem_cons_of_mem _ ht, hin⟩ }

/-- A nonce that `Issue` accepts is in the table, in its window. -/
theorem present_eq_ok {nonces nonces' : Nonces} {nonce pubKey : Bytes} {now : ℤ}
    (h : present nonces nonce pubKey now = (.ok (), nonces')) :
    ∃ exp, nonces.lookup nonce = some exp ∧ now < exp ∧ nonces' = nonces.erase nonce := by
  rw [present] at h
  split at h
  · cases h
  · rw [consumeNonce] at h
    split at h
    · cases h
    · rename_i exp hexp
      obtain ⟨hrequire, rfl⟩ := Prod.mk.inj h
      exact ⟨exp, hexp, Except.require_eq_ok_iff.mp hrequire, rfl⟩

/-- A call with a key of the right size spends its nonce, whatever comes of it. -/
theorem present_spends {nonces : Nonces} {nonce pubKey : Bytes} {now : ℤ}
    (hkey : pubKey.length = Sigctx.publicKeySize) :
    nonce ∉ (present nonces nonce pubKey now).2 := by
  rw [present, if_neg (by simpa using hkey), consumeNonce]
  split
  · rename_i hnone
    exact AList.lookup_eq_none.mp hnone
  · intro hmem
    exact (AList.mem_erase.mp hmem).1 rfl

theorem present_sublist (nonces : Nonces) (nonce pubKey : Bytes) (now : ℤ) :
    (present nonces nonce pubKey now).2.entries.Sublist nonces.entries := by
  rw [present]
  split
  · exact List.Sublist.refl _
  · rw [consumeNonce]
    split
    · exact List.Sublist.refl _
    · exact List.kerase_sublist _ _

theorem NonceInv.present (hs : NonceInv a s) {evidence nonce pubKey : Bytes} {nonces : Nonces}
    (h : present s.nonces nonce pubKey s.clock = (.ok (), nonces)) :
    NonceInv a { s with
      nonces := nonces
      consumed := s.consumed ++ [⟨evidence, nonce, pubKey, s.clock⟩] } := by
  obtain ⟨exp, hexp, hnow, rfl⟩ := present_eq_ok h
  have hentry := AList.mem_lookup_iff.mp hexp
  have hcalls : Enrollment.calls { s with
      nonces := s.nonces.erase nonce
      consumed := s.consumed ++ [⟨evidence, nonce, pubKey, s.clock⟩] } =
      ⟨evidence, nonce, pubKey, s.clock⟩ ::ₘ s.calls := by
    simp only [Enrollment.calls, Enrollment.spent, ← Multiset.coe_add, Multiset.coe_singleton,
      ← Multiset.singleton_add]
    abel
  refine { hs with live := ?_, table := ?_, calls := ?_ }
  · -- the nonce leaves the table with the call
    have hmoved : nonce ::ₘ ((s.nonces.erase nonce).keys : Multiset Bytes) ≤ s.nonces.keys := by
      have hgone : nonce ∉ (s.nonces.erase nonce).keys := fun h =>
        (AList.mem_erase.mp (AList.mem_keys.mpr h)).1 rfl
      have hnodup : (nonce ::ₘ ((s.nonces.erase nonce).keys : Multiset Bytes)).Nodup :=
        Multiset.coe_nodup.mpr (List.nodup_cons.mpr ⟨hgone, AList.keys_nodup _⟩)
      rw [Multiset.le_iff_subset hnodup]
      intro m hm
      rcases Multiset.mem_cons.mp hm with rfl | hm
      · exact List.mem_map.mpr ⟨_, hentry, rfl⟩
      · exact AList.mem_keys.mp (AList.mem_erase.mp (AList.mem_keys.mpr hm)).2
    refine Multiset.nodup_of_le ?_ hs.live
    rw [hcalls, Multiset.map_cons, Multiset.add_cons, ← Multiset.cons_add]
    exact add_le_add hmoved le_rfl
  · exact fun e he => hs.table e ((List.kerase_sublist _ _).subset he)
  · rw [hcalls]
    intro x hx
    rcases Multiset.mem_cons.mp hx with rfl | hx
    · obtain ⟨t, ht, htime, hle⟩ := hs.table _ hentry
      exact ⟨t, ht, htime, hnow.trans_le hle⟩
    · exact hs.calls x hx

/-- The call that has been attested moves on with its nonce. -/
theorem calls_attest {i : ℕ} {x : Presented} (hx : s.consumed[i]? = some x) {t : TokenAttestor}
    {y : Attested} (hy : y.toPresented = x) :
    Enrollment.calls { s with
      attestor := t
      consumed := s.consumed.eraseIdx i
      attested := s.attested ++ [y] } = s.calls := by
  simp only [Enrollment.calls, Enrollment.spent, ← Multiset.coe_add, Multiset.coe_singleton,
    coe_eq_cons_eraseIdx hx, Multiset.map_add, Multiset.map_singleton, hy, ← Multiset.singleton_add]
  abel

/-- The call that returns a credential has been attested before. -/
theorem spent_sign {i : ℕ} {x : Attested} (hx : s.attested[i]? = some x) {y : Issued}
    (hy : y.toAttested = x) :
    Enrollment.spent { s with attested := s.attested.eraseIdx i, issued := s.issued ++ [y] } =
      s.spent := by
  simp only [Enrollment.spent, ← Multiset.coe_add, Multiset.coe_singleton, coe_eq_cons_eraseIdx hx,
    Multiset.map_add, Multiset.map_singleton, hy, ← Multiset.singleton_add]
  abel

theorem spent_signFailed (i : ℕ) :
    Enrollment.spent { s with attested := s.attested.eraseIdx i } ≤ s.spent :=
  add_le_add (coe_eraseIdx_le _ _) le_rfl

theorem NonceInv.step {e : EnrollEvent} (hs : NonceInv a s) (hstep : EnrollStep S hmac a s e s')
    (hfresh : freshNonce s e = true) : NonceInv a s' := by
  cases hstep with
  | advance d => exact hs.of_le (by simp) rfl (.refl _) rfl (.refl _) le_rfl
  | registerFailed | registerGrant => exact hs.of_le le_rfl rfl (.refl _) rfl (.refl _) le_rfl
  | drawNonce n => exact hs.drawNonce (by simpa [freshNonce] using hfresh)
  | nonceFailed hdrawn =>
      exact hs.of_le le_rfl rfl (List.eraseIdx_sublist _ _) rfl List.filter_sublist le_rfl
  | nonce hdrawn => exact hs.nonce hdrawn
  | presentFailed evidence nonce pubKey h =>
      have hsublist := present_sublist s.nonces nonce pubKey s.clock
      rw [h] at hsublist
      exact hs.of_le le_rfl rfl (.refl _) rfl hsublist le_rfl
  | present evidence nonce pubKey h => exact hs.present h
  | attestFailed hx order =>
      exact hs.of_le le_rfl rfl (.refl _) rfl (.refl _) (add_le_add (coe_eraseIdx_le _ _) le_rfl)
  | attest hx h => exact hs.of_le le_rfl rfl (.refl _) rfl (.refl _) (calls_attest hx rfl).le
  | signFailed hx =>
      exact hs.of_le le_rfl rfl (.refl _) rfl (.refl _)
        (add_le_add le_rfl (Multiset.map_le_map (spent_signFailed _)))
  | sign hx h =>
      refine hs.of_le le_rfl rfl (.refl _) rfl (.refl _) ?_
      rw [Enrollment.calls, spent_sign hx rfl]
      exact le_rfl

/-! ## Budgets -/

/-- The uses of a registration that have been spent. -/
def Enrollment.spentOn (s : Enrollment) (p : ℕ) : ℕ := s.spent.countP fun x => x.registration = p

structure BudgetInv (hmac : Bytes → Bytes → Bytes) (s : Enrollment) : Prop where
  allocated : s.attestor.grants.length = s.registrations.length
  /-- A grant says what was registered; a use is left in it or has been spent. -/
  grants : ∀ p r, s.registrations[p]? = some r → ∃ g, s.attestor.grants[p]? = some g ∧
    g.agentID = r.grant.agentID ∧ g.notAfter = r.notAfter ∧ 0 ≤ g.left ∧
    g.left + (s.spentOn p : ℤ) ≤ r.uses
  tokens : ∀ token p, s.attestor.tokens.lookup token = some p →
    ∃ r, s.registrations[p]? = some r ∧ r.token = token
  /-- What attests a call is a registration of its token, within its window. -/
  attested : ∀ x ∈ s.spent, ∃ r, s.registrations[x.registration]? = some r ∧ r.token = x.token ∧
    x.agentID = r.grant.agentID ∧ x.attestedAt < r.notAfter ∧
    x.evidence = bootstrapEvidence hmac r.token x.nonce x.pubKey

theorem budgetInv_new (clock : ℤ) : BudgetInv hmac (.new clock) where
  allocated := rfl
  grants := by simp [Enrollment.new]
  tokens := by simp [Enrollment.new, TokenAttestor.new]
  attested := by simp [Enrollment.new, Enrollment.spent]

theorem BudgetInv.of_le (hs : BudgetInv hmac s) (hattestor : s'.attestor = s.attestor)
    (hregistrations : s'.registrations = s.registrations) (hspent : s'.spent ≤ s.spent) :
    BudgetInv hmac s' where
  allocated := by rw [hattestor, hregistrations, hs.allocated]
  grants p r hr := by
    obtain ⟨g, hg, hagent, hwindow, hleft, hbudget⟩ := hs.grants p r (hregistrations ▸ hr)
    have hle : s'.spentOn p ≤ s.spentOn p := Multiset.countP_le_of_le _ hspent
    exact ⟨g, hattestor ▸ hg, hagent, hwindow, hleft, by omega⟩
  tokens := by
    rw [hattestor, hregistrations]
    exact hs.tokens
  attested x hx := hregistrations ▸ hs.attested x (Multiset.mem_of_le hspent hx)

theorem uses_pos (r : Registration) : 0 < r.uses := by
  change 0 < if r.grant.uses ≤ 0 then defaultTokenUses else r.grant.uses
  split_ifs with huses
  · decide
  · omega

/-- The new registration comes after the others, and nobody has spent anything on it. -/
theorem BudgetInv.register (hs : BudgetInv hmac s) {token : Bytes} {g : TokenGrant}
    {t : TokenAttestor} (h : s.attestor.registerGrant token g s.clock = .ok t) :
    BudgetInv hmac
      { s with attestor := t, registrations := s.registrations ++ [⟨token, g, s.clock⟩] } := by
  rw [TokenAttestor.registerGrant, Except.check_bind_eq_ok_iff, Except.check_bind_eq_ok_iff] at h
  obtain ⟨-, -, h⟩ := h
  cases h
  have hold : ∀ {p r}, s.registrations[p]? = some r →
      (s.registrations ++ [⟨token, g, s.clock⟩])[p]? = some r :=
    fun hr => Transition.getElem?_concat_eq_some_iff.mpr (.inl hr)
  -- Calls are charged to registrations that were there when they were attested.
  have hunspent : s.spentOn s.registrations.length = 0 := by
    rw [Enrollment.spentOn, Multiset.countP_eq_zero]
    rintro x hx hlast
    obtain ⟨r, hr, -⟩ := hs.attested x hx
    rw [hlast, List.getElem?_eq_none le_rfl] at hr
    cases hr
  exact {
    allocated := by simp [hs.allocated]
    grants := by
      intro p r hr
      rcases Transition.getElem?_concat_eq_some_iff.mp hr with hr | ⟨rfl, rfl⟩
      · obtain ⟨g', hg', hrest⟩ := hs.grants p r hr
        exact ⟨g', Transition.getElem?_concat_eq_some_iff.mpr (.inl hg'), hrest⟩
      · -- the grant is allocated with its full number of uses, and none of them is spent
        refine ⟨_, by rw [← hs.allocated, List.getElem?_concat_length], rfl, rfl, ?_, ?_⟩
        · exact (uses_pos ⟨token, g, s.clock⟩).le
        · change _ + (s.spentOn s.registrations.length : ℤ) ≤ _
          rw [hunspent]
          exact (add_zero _).le
    tokens := by
      intro token' p hp
      by_cases heq : token' = token
      · subst heq
        rw [AList.lookup_insert] at hp
        cases hp
        exact ⟨_, by rw [hs.allocated, List.getElem?_concat_length], rfl⟩
      · rw [AList.lookup_insert_ne heq] at hp
        obtain ⟨r, hr, htoken⟩ := hs.tokens token' p hp
        exact ⟨r, hold hr, htoken⟩
    attested := by
      intro x hx
      obtain ⟨r, hr, hrest⟩ := hs.attested x hx
      exact ⟨r, hold hr, hrest⟩ }

/-- What the loop of `Attest` finds. -/
theorem trial_eq_some {t : TokenAttestor} {evidence nonce pubKey token : Bytes} {order : List Bytes}
    {p : ℕ} {g : Grant} (h : t.trial hmac evidence nonce pubKey order = some (token, p, g)) :
    t.tokens.lookup token = some p ∧ t.grants[p]? = some g ∧
      evidence = bootstrapEvidence hmac token nonce pubKey := by
  induction order with
  | nil => cases h
  | cons token' order ih =>
      rw [TokenAttestor.trial] at h
      split at h
      · exact ih h
      · split at h
        · exact ih h
        · split_ifs at h with hskip
          · exact ih h
          · cases h
            exact ⟨by assumption, by assumption, by_contra fun hne => hskip (.inr hne)⟩

theorem attest_eq_ok {t t' : TokenAttestor} {evidence nonce pubKey token agentID : Bytes}
    {order : List Bytes} {now : ℤ} {p : ℕ}
    (h : t.attest hmac order evidence nonce pubKey now = .ok ((token, p, agentID), t')) :
    ∃ g, t.tokens.lookup token = some p ∧ t.grants[p]? = some g ∧
      evidence = bootstrapEvidence hmac token nonce pubKey ∧ now < g.notAfter ∧ 0 < g.left ∧
      agentID = g.agentID ∧ t' = { t with grants := t.grants.set p { g with left := g.left - 1 } } := by
  rw [TokenAttestor.attest, Except.check_bind_eq_ok_iff] at h
  obtain ⟨⟨token', p', g⟩, htrial, h⟩ := Except.bind_eq_ok_iff.mp h.2
  rw [Except.ofOption_eq_ok_iff] at htrial
  simp only [Except.check_bind_eq_ok_iff, Except.require_eq_ok_iff] at h
  obtain ⟨hnow, hleft, h⟩ := h
  cases h
  obtain ⟨htoken, hgrant, hevidence⟩ := trial_eq_some htrial
  exact ⟨g, htoken, hgrant, hevidence, hnow, hleft, rfl, rfl⟩

/-- The use moves from the grant to the call. -/
theorem BudgetInv.attest (hs : BudgetInv hmac s) {i : ℕ} {x : Presented} {order : List Bytes}
    {token agentID : Bytes} {p : ℕ} {t : TokenAttestor}
    (h : s.attestor.attest hmac order x.evidence x.nonce x.pubKey s.clock =
      .ok ((token, p, agentID), t)) :
    BudgetInv hmac { s with
      attestor := t
      consumed := s.consumed.eraseIdx i
      attested := s.attested ++ [⟨x, token, p, agentID, s.clock⟩] } := by
  obtain ⟨g, htoken, hgrant, hevidence, hnow, hleft, rfl, rfl⟩ := attest_eq_ok h
  obtain ⟨r, hr, hrtoken⟩ := hs.tokens token p htoken
  obtain ⟨g', hg', hagent, hwindow, -, hbudget⟩ := hs.grants p r hr
  obtain rfl : g = g' := Option.some.inj (hgrant.symm.trans hg')
  have hspent : Enrollment.spent { s with
      attestor := { s.attestor with
        grants := s.attestor.grants.set p { g with left := g.left - 1 } }
      consumed := s.consumed.eraseIdx i
      attested := s.attested ++ [⟨x, token, p, g.agentID, s.clock⟩] } =
      ⟨x, token, p, g.agentID, s.clock⟩ ::ₘ s.spent := by
    simp only [Enrollment.spent, ← Multiset.coe_add, Multiset.coe_singleton,
      ← Multiset.singleton_add]
    abel
  refine ⟨by simpa using hs.allocated, ?_, hs.tokens, ?_⟩
  · -- the grant has one use less, and the calls charged to it are one more
    intro q r' hr'
    rw [Enrollment.spentOn, hspent, Multiset.countP_cons]
    change ∃ g', (s.attestor.grants.set p _)[q]? = some g' ∧ _
    by_cases hq : p = q
    · subst hq
      obtain rfl : r = r' := Option.some.inj (hr.symm.trans hr')
      refine ⟨_, List.getElem?_set_self (List.getElem?_eq_some_iff.mp hgrant).1, hagent, hwindow,
        Int.sub_nonneg_of_le hleft, ?_⟩
      rw [if_pos rfl]
      change g.left - 1 + ((s.spentOn p + 1 : ℕ) : ℤ) ≤ r.uses
      omega
    · rw [List.getElem?_set_ne hq, if_neg hq]
      exact hs.grants q r' hr'
  · rw [hspent]
    intro y hy
    rcases Multiset.mem_cons.mp hy with rfl | hy
    · exact ⟨r, hr, hrtoken, hagent, hwindow ▸ hnow, hrtoken ▸ hevidence⟩
    · exact hs.attested y hy

theorem BudgetInv.step {e : EnrollEvent} (hs : BudgetInv hmac s)
    (hstep : EnrollStep S hmac a s e s') : BudgetInv hmac s' := by
  cases hstep with
  | registerGrant h => exact hs.register h
  | attest hx h => exact hs.attest h
  | signFailed hx => exact hs.of_le rfl rfl (spent_signFailed _)
  | sign hx h => exact hs.of_le rfl rfl (spent_sign hx rfl).le
  | _ => exact hs.of_le rfl rfl le_rfl

/-! ## Credentials -/

/-- The credential is for the agent and the key of its call. -/
structure Issued.Signed (x : Issued) : Prop where
  valid : validAgentID x.credential.agentID = .ok ()
  agentID : x.credential.agentID = x.agentID
  publicKey : x.credential.publicKey = x.pubKey

theorem signed_of_sign {x : Attested} {now : ℤ} {c : Credential}
    (h : a.sign S x.agentID x.pubKey now = .ok c) : Issued.Signed ⟨x, c⟩ := by
  rw [Authority.sign, Except.check_bind_eq_ok_iff, Except.mapError_eq_ok_iff] at h
  obtain ⟨hvalid, h⟩ := h
  cases h
  exact ⟨hvalid, rfl, rfl⟩

theorem signed_step {e : EnrollEvent} (hs : ∀ x ∈ s.issued, x.Signed)
    (hstep : EnrollStep S hmac a s e s') : ∀ x ∈ s'.issued, x.Signed := by
  cases hstep with
  | sign hx h =>
      intro x hmem
      rcases List.mem_append.mp hmem with hmem | hmem
      · exact hs x hmem
      · rw [List.mem_singleton.mp hmem]
        exact signed_of_sign h
  | _ => exact hs

theorem bootstrapMsg_injective {nonce nonce' pub pub' : Bytes}
    (h : bootstrapMsg nonce pub = bootstrapMsg nonce' pub') : nonce = nonce' ∧ pub = pub' := by
  have hfields := Json.object.inj (Json.render_injective h)
  simp only [List.map_cons, List.map_nil, List.cons.injEq, Prod.mk.injEq, true_and, and_true]
    at hfields
  exact ⟨Json.ofBytes_injective hfields.1, Json.ofBytes_injective hfields.2⟩

/-! ## Spent nonces -/

/-- The nonce has been handed out, and is no longer in the table. -/
def Used (n : Bytes) (s : Enrollment) : Prop := n ∈ s.handedOut.map Prod.fst ∧ n ∉ s.nonces

theorem Used.of_sublist {n : Bytes} (hn : Used n s) (hout : s'.handedOut = s.handedOut)
    (hnonces : s'.nonces.entries.Sublist s.nonces.entries) : Used n s' :=
  ⟨hout ▸ hn.1, fun hmem => hn.2 ((hnonces.map Sigma.fst).subset hmem)⟩

theorem Used.step {e : EnrollEvent} {n : Bytes} (hn : Used n s) (hs : NonceInv a s)
    (hstep : EnrollStep S hmac a s e s') : Used n s' := by
  cases hstep with
  | nonceFailed hdrawn => exact hn.of_sublist rfl List.filter_sublist
  | @nonce i m now hdrawn =>
      refine ⟨List.mem_cons_of_mem _ hn.1, fun hmem => ?_⟩
      rcases (AList.mem_insert _).mp hmem with rfl | hmem
      · exact List.disjoint_of_nodup_append hs.once
          (List.mem_map.mpr ⟨_, List.mem_of_getElem? hdrawn, rfl⟩) hn.1
      · exact hn.2 ((List.filter_sublist.map Sigma.fst).subset hmem)
  | presentFailed evidence nonce pubKey h =>
      have hsublist := present_sublist s.nonces nonce pubKey s.clock
      rw [h] at hsublist
      exact hn.of_sublist rfl hsublist
  | present evidence nonce pubKey h =>
      have hsublist := present_sublist s.nonces nonce pubKey s.clock
      rw [h] at hsublist
      exact hn.of_sublist rfl hsublist
  | _ => exact hn

/-! ## Every interleaving -/

/-- What holds of the credentials that have been issued. -/
structure Bounded (hmac : Bytes → Bytes → Bytes) (a : Authority) (s : Enrollment) : Prop where
  /-- A nonce leads to one credential at most. -/
  once : (s.issued.map (·.nonce)).Nodup
  window : ∀ x ∈ s.issued, InWindow a s.handedOut x.toPresented
  /-- A registration is good for as many credentials as it allows. -/
  budget : ∀ p r, s.registrations[p]? = some r →
    (s.issued.countP fun x => x.registration = p : ℤ) ≤ r.uses
  /-- A credential binds the agent of a registration, which was open when the evidence of its token
  over the nonce and the key, and no others, was attested. -/
  bound : ∀ x ∈ s.issued, ∃ r, s.registrations[x.registration]? = some r ∧
    x.attestedAt < r.notAfter ∧ x.credential.agentID = r.grant.agentID ∧
    validAgentID x.credential.agentID = .ok () ∧ x.credential.publicKey = x.pubKey ∧
    ∀ nonce pub, x.evidence = bootstrapEvidence hmac r.token nonce pub ↔
      nonce = x.nonce ∧ pub = x.credential.publicKey

theorem bounded_of_inv (hhmac : ∀ key, Function.Injective (hmac key)) (hnonce : NonceInv a s)
    (hbudget : BudgetInv hmac s) (hsigned : ∀ x ∈ s.issued, x.Signed) : Bounded hmac a s := by
  -- What was issued is part of what was attested, and that of what was presented.
  have hspent : (s.issued : Multiset Issued).map (·.toAttested) ≤ s.spent :=
    Multiset.le_add_left _ _
  have hcalls : (s.issued : Multiset Issued).map (·.toPresented) ≤ s.calls := by
    have hmap := Multiset.map_le_map (f := fun x : Attested => x.toPresented) hspent
    rw [Multiset.map_map] at hmap
    exact hmap.trans (Multiset.le_add_left _ _)
  refine ⟨?_, fun x hx => ?_, fun p r hr => ?_, fun x hx => ?_⟩
  · have hmap := Multiset.map_le_map (f := fun x : Presented => x.nonce) hcalls
    rw [Multiset.map_map, Multiset.map_coe] at hmap
    exact Multiset.coe_nodup.mp
      (Multiset.nodup_of_le (hmap.trans (Multiset.le_add_left _ _)) hnonce.live)
  · exact hnonce.calls _ (Multiset.mem_of_le hcalls (Multiset.mem_map_of_mem _ hx))
  · obtain ⟨g, -, -, -, hleft, huses⟩ := hbudget.grants p r hr
    have hle := Multiset.countP_le_of_le (fun x : Attested => x.registration = p) hspent
    rw [Multiset.countP_map, ← Multiset.countP_eq_card_filter, Multiset.coe_countP] at hle
    rw [Enrollment.spentOn] at huses
    omega
  · obtain ⟨r, hr, -, hagent, hwindow, hevidence⟩ :=
      hbudget.attested _ (Multiset.mem_of_le hspent (Multiset.mem_map_of_mem _ hx))
    have hx := hsigned x hx
    refine ⟨r, hr, hwindow, hx.agentID.trans hagent, hx.valid, hx.publicKey, fun nonce pub => ?_⟩
    rw [hx.publicKey]
    constructor
    · intro heq
      exact bootstrapMsg_injective (hhmac _ (heq.symm.trans hevidence))
    · rintro ⟨rfl, rfl⟩
      exact hevidence

/-- Whatever the order of the steps: the credentials issued are bounded by nonces and registrations,
and `Issue` with a key of the right size spends its nonce for good, whatever comes of the call. -/
theorem enrollment_bounded (S : SignatureScheme) (hmac : Bytes → Bytes → Bytes)
    (hhmac : ∀ key, Function.Injective (hmac key)) (a : Authority) (clock : ℤ)
    (es : List EnrollEvent) (s : Enrollment)
    (hrun : Transition.run (enrollStep S hmac a) (.new clock) es = some s)
    (hfresh : Transition.Along (enrollStep S hmac a) (fun s e _ => freshNonce s e = true)
      (.new clock) es) :
    Bounded hmac a s ∧
      ∀ es₁ evidence nonce pubKey es₂, es = es₁ ++ .present evidence nonce pubKey :: es₂ →
        pubKey.length = Sigctx.publicKeySize →
        ∃ s₁ s₂, Transition.run (enrollStep S hmac a) (.new clock) es₁ = some s₁ ∧
          enrollStep S hmac a s₁ (.present evidence nonce pubKey) = some s₂ ∧ nonce ∉ s₂.nonces ∧
          (nonce ∈ s₁.handedOut.map Prod.fst → nonce ∉ s.nonces) := by
  have hkeep : ∀ s e s', enrollStep S hmac a s e = some s' → freshNonce s e = true →
      NonceInv a s → NonceInv a s' :=
    fun s e s' hstep hfresh hs => hs.step (enrollStep_eq_some hstep) hfresh
  constructor
  · have hbudget : BudgetInv hmac s := Transition.invariant
      (fun s e s' hstep hs => hs.step (enrollStep_eq_some hstep)) hrun (budgetInv_new clock)
    have hsigned : ∀ x ∈ s.issued, x.Signed :=
      Transition.invariant (I := fun s : Enrollment => ∀ x ∈ s.issued, x.Signed)
        (fun s e s' hstep hs => signed_step hs (enrollStep_eq_some hstep)) hrun (by simp [Enrollment.new])
    exact bounded_of_inv hhmac (hfresh.invariant hkeep hrun (nonceInv_new clock)) hbudget hsigned
  · rintro es₁ evidence nonce pubKey es₂ rfl hkey
    obtain ⟨s₁, hrun₁, hrest⟩ := Transition.run_append_eq_some_iff.mp hrun
    obtain ⟨s₂, hstep, hrun₂⟩ := Transition.run_cons_eq_some_iff.mp hrest
    obtain ⟨hfresh₁, hfresh₂⟩ := hfresh.append hrun₁
    rw [Transition.Along, hstep] at hfresh₂
    have hs₁ := hfresh₁.invariant hkeep hrun₁ (nonceInv_new clock)
    have hs₂ := hs₁.step (enrollStep_eq_some hstep) hfresh₂.1
    have hgone : nonce ∉ s₂.nonces ∧ s₂.handedOut = s₁.handedOut := by
      have hspends := @present_spends s₁.nonces nonce pubKey s₁.clock hkey
      cases enrollStep_eq_some hstep with
      | presentFailed _ _ _ h => exact ⟨by rwa [h] at hspends, rfl⟩
      | present _ _ _ h => exact ⟨by rwa [h] at hspends, rfl⟩
    -- A nonce that was handed out and is gone is used, and no later step brings it back.
    refine ⟨s₁, s₂, hrun₁, hstep, hgone.1, fun hout => ?_⟩
    have hused : NonceInv a s ∧ Used nonce s :=
      hfresh₂.2.invariant (I := fun s => NonceInv a s ∧ Used nonce s)
        (fun s e s' hstep hfresh hs => ⟨hkeep s e s' hstep hfresh hs.1,
          hs.2.step hs.1 (enrollStep_eq_some hstep)⟩)
        hrun₂ ⟨hs₂, hgone.2 ▸ hout, hgone.1⟩
    exact hused.2.2

/-! One enrollment with a token for a single use, and a second one that comes too late. -/

namespace EnrollSample

def authority : Authority := ⟨List.replicate 64 7, Bytes.ascii "ca", defaultTTL, nonceTTL⟩

/-- A nonce of the right size. -/
def nonce (b : UInt8) : Bytes := List.replicate 32 b

def pubKey : Bytes := List.replicate 32 9

def token : Bytes := Bytes.ascii "boot"

def evidence (b : UInt8) : Bytes := bootstrapEvidence SignatureScheme.term token (nonce b) pubKey

/-- A call of `Issue` with the nonce, and the calls before it. -/
def enroll (b : UInt8) : List EnrollEvent :=
  [.drawNonce (nonce b), .nonce 0, .present (evidence b) (nonce b) pubKey, .attest 0 [token]]

def events : List EnrollEvent :=
  .registerGrant token ⟨Bytes.ascii "agent-1", 0, 0⟩ :: enroll 1 ++ enroll 2 ++ [.sign 0]

def final : Enrollment :=
  (Transition.run (enrollStep .free SignatureScheme.term authority) (.new 1) events).getD (.new 1)

theorem run_events :
    Transition.run (enrollStep .free SignatureScheme.term authority) (.new 1) events =
      some final := by
  have hsome : (Transition.run (enrollStep .free SignatureScheme.term authority) (.new 1)
      events).isSome = true := by
    decide +kernel
  obtain ⟨s, hs⟩ := Option.isSome_iff_exists.mp hsome
  rw [final, hs]
  rfl

end EnrollSample

open EnrollSample in
theorem enrollment_bounded_single_use :
    final.issued.map (·.nonce) = [nonce 1] ∧ Bounded SignatureScheme.term authority final :=
  ⟨by decide +kernel, (enrollment_bounded .free SignatureScheme.term
    (fun _ _ _ h => (SignatureScheme.term_injective h).2) authority 1 events final run_events
    (by decide +kernel)).1⟩

end Sanad.Workload
