import Mathlib.Logic.Function.Basic
import Sanad.Workload

/-! # Replicas of one agent

`workload/keystore.go`: the instances of an agent hold different keys under one agent id, and the
instance stage calls `Add` with the credential of whichever instance sends a request. The store
keeps one entry for an id, the one of the last `Add` (`lookup_addEach`), so a delegation that the
agent signed verifies as long as the instance that signed it was the last one seen.
-/

namespace Sanad.Workload

open Delegation

/-! ## A run of additions -/

/-- What a call of `Add` leaves: the store as it was when the credential is refused. -/
def KeyStore.afterAdd (S : SignatureScheme) (s : KeyStore) (c : Credential) (now : ℤ) : KeyStore :=
  match s.add S c now with
  | .ok s' => s'
  | .error _ => s

/-- The store after a run of calls of `Add`, each with the reading of the clock. -/
def KeyStore.addEach (S : SignatureScheme) (s : KeyStore) (adds : List (Credential × ℤ)) : KeyStore :=
  adds.foldl (fun s a => s.afterAdd S a.1 a.2) s

/-- The credentials for `id` that a run adds, in order. -/
def enrolled (S : SignatureScheme) (caPub id : Bytes) (adds : List (Credential × ℤ)) :
    List Credential :=
  (adds.filter fun a => a.1.agentID = id ∧ verify S caPub a.1 a.2 = .ok ()).map Prod.fst

/-- The entry that `Add` writes. -/
def Credential.entry (c : Credential) : KeyEntry := ⟨c.publicKey, c.notAfter⟩

theorem lookup_insertKey (m : List (Bytes × KeyEntry)) (id id' : Bytes) (e : KeyEntry) :
    (insertKey m id e).lookup id' = if id' = id then some e else m.lookup id' := by
  rw [insertKey, List.lookup_cons]
  split_ifs with h
  · simp [h]
  · rw [beq_eq_false_iff_ne.mpr h]
    induction m with
    | nil => rfl
    | cons kv m ih =>
        obtain ⟨k, v⟩ := kv
        by_cases hk : k = id
        · rw [List.filter_cons_of_neg (by simp [hk]), ih, List.lookup_cons, hk,
            beq_eq_false_iff_ne.mpr h]
        · rw [List.filter_cons_of_pos (by simp [hk]), List.lookup_cons, List.lookup_cons]
          simp only [ih]

section

variable (S : SignatureScheme) (s : KeyStore)

theorem KeyStore.afterAdd_eq (c : Credential) (now : ℤ) :
    s.afterAdd S c now = if verify S s.caPub c now = .ok () then
      { s with agents := insertKey s.agents c.agentID c.entry } else s := by
  rw [KeyStore.afterAdd, KeyStore.add]
  cases verify S s.caPub c now with
  | ok u => rfl
  | error e => rfl

/-- A run of additions leaves, under an id, the last credential it added for the id. -/
theorem KeyStore.lookup_addEach (id : Bytes) (adds : List (Credential × ℤ)) :
    (s.addEach S adds).agents.lookup id =
      ((enrolled S s.caPub id adds).getLast?.map Credential.entry).or (s.agents.lookup id) := by
  induction adds generalizing s with
  | nil => rfl
  | cons a adds ih =>
      have hrun : s.addEach S (a :: adds) = (s.afterAdd S a.1 a.2).addEach S adds := rfl
      rw [hrun, ih, KeyStore.afterAdd_eq]
      by_cases hok : verify S s.caPub a.1 a.2 = .ok ()
      · rw [if_pos hok, lookup_insertKey]
        by_cases hid : a.1.agentID = id
        · have henrolled : enrolled S s.caPub id (a :: adds) = a.1 :: enrolled S s.caPub id adds := by
            simp [enrolled, hok, hid]
          rw [if_pos hid.symm, henrolled, List.getLast?_cons]
          cases (enrolled S s.caPub id adds).getLast? with
          | none => rfl
          | some c => rfl
        · have henrolled : enrolled S s.caPub id (a :: adds) = enrolled S s.caPub id adds := by
            simp [enrolled, hid]
          rw [if_neg (Ne.symm hid), henrolled]
      · have henrolled : enrolled S s.caPub id (a :: adds) = enrolled S s.caPub id adds := by
          simp [enrolled, hok]
        rw [if_neg hok, henrolled]

end

/-! ## The key that a delegation verifies under -/

/-- The registry in which the agent `id` has the key `pub`. -/
def withAgentKey (keys : KeyRegistry) (id pub : Bytes) : KeyRegistry :=
  { keys with agentKey := Function.update keys.agentKey id (some pub) }

theorem withAgentKey_self {keys : KeyRegistry} {id pub : Bytes} (h : keys.agentKey id = some pub) :
    withAgentKey keys id pub = keys := by
  rw [withAgentKey, ← h, Function.update_eq_self]

theorem agentKey_withAgentKey (keys : KeyRegistry) (id pub : Bytes) :
    (withAgentKey keys id pub).agentKey id = some pub := by
  simp [withAgentKey]

section

variable {S : SignatureScheme} {keys keys' : KeyRegistry} {rootPrincipalID : Bytes} {now : ℤ}

/-- After the first hop of a verified chain, each hop is signed under its delegator's agent key, over
the signature of the hop before. -/
theorem signed_of_checkHops {i : ℕ} {prev : Option Hop} {front back : List Hop} {p hop : Hop}
    (h : checkHops S keys rootPrincipalID now i prev (front ++ p :: hop :: back) = .ok ()) :
    ∃ pub, keys.agentKey hop.delegator = some pub ∧ Sigctx.verify S .delegationHop pub
      (Delegation.canonical hop.delegator hop.delegate hop.grant p.signature) hop.signature = true := by
  induction front generalizing i prev with
  | nil =>
      rw [List.nil_append, checkHops, Except.check_bind_eq_ok_iff, checkHops,
        Except.check_bind_eq_ok_iff, checkHop_later] at h
      exact h.2.1.2.1
  | cons q front ih =>
      rw [List.cons_append, checkHops, Except.check_bind_eq_ok_iff] at h
      exact ih h.2

theorem signed_of_verify {c : Chain} {opts : List VerifyOption} {result : Delegation.Grant × Bytes}
    {front back : List Hop} {p hop : Hop} (hhops : c.hops = front ++ p :: hop :: back)
    (h : Delegation.verify S keys rootPrincipalID now c opts = .ok result) :
    ∃ pub, keys.agentKey hop.delegator = some pub ∧ Sigctx.verify S .delegationHop pub
      (Delegation.canonical hop.delegator hop.delegate hop.grant p.signature) hop.signature = true := by
  rw [Delegation.verify, Except.check_bind_eq_ok_iff, Except.check_bind_eq_ok_iff, hhops] at h
  exact signed_of_checkHops h.2.1

/-- One chain verifies in two registries only if they agree on the key of each agent that delegates
in it. -/
theorem agentKey_eq_of_verify (hS : S.Ideal) {c : Chain} {opts : List VerifyOption}
    {result result' : Delegation.Grant × Bytes} {front back : List Hop} {p hop : Hop}
    (hhops : c.hops = front ++ p :: hop :: back)
    (h : Delegation.verify S keys rootPrincipalID now c opts = .ok result)
    (h' : Delegation.verify S keys' rootPrincipalID now c opts = .ok result') :
    keys.agentKey hop.delegator = keys'.agentKey hop.delegator := by
  obtain ⟨pub, hpub, hsig⟩ := signed_of_verify hhops h
  obtain ⟨pub', hpub', hsig'⟩ := signed_of_verify hhops h'
  rw [hpub, hpub', (Sigctx.eq_of_verify_verify hS hsig hsig').1]

/-! ## Which delegations of a replicated agent verify -/

/-- Some instances of an agent are added to a store in any order and number. A chain in which the
agent delegates and that is valid when the agent's key is that of one of its instances verifies
against the store exactly if the last instance added for the agent has that key. -/
theorem replica_accepted_iff (hS : S.Ideal) (s : KeyStore) (adds : List (Credential × ℤ))
    (clock : ℤ) (c : Chain) (opts : List VerifyOption) (result : Delegation.Grant × Bytes)
    (front back : List Hop) (p hop : Hop) (hhops : c.hops = front ++ p :: hop :: back)
    (replica : Credential) (hreplica : replica ∈ enrolled S s.caPub hop.delegator adds)
    (hunexpired : ∀ cred ∈ enrolled S s.caPub hop.delegator adds, clock < cred.notAfter)
    (hvalid : Delegation.verify S
      (withAgentKey ((s.addEach S adds).registry clock) hop.delegator replica.publicKey)
      rootPrincipalID now c opts = .ok result) :
    Delegation.verify S ((s.addEach S adds).registry clock) rootPrincipalID now c opts
        = .ok result ↔
      (enrolled S s.caPub hop.delegator adds).getLast?.map Credential.publicKey
        = some replica.publicKey := by
  obtain ⟨last, hlast⟩ : ∃ last, (enrolled S s.caPub hop.delegator adds).getLast? = some last :=
    List.getLast?_isSome.mpr (List.ne_nil_of_mem hreplica) |> Option.isSome_iff_exists.mp
  have hkey : ((s.addEach S adds).registry clock).agentKey hop.delegator = some last.publicKey := by
    have hclock := hunexpired last (List.mem_of_getLast? hlast)
    simp only [KeyStore.registry, lookup, KeyStore.lookup_addEach, hlast, Option.map_some,
      Option.some_or, Credential.entry]
    rw [if_neg (by simp [hclock])]
  rw [hlast, Option.map_some, Option.some_inj]
  constructor
  · intro haccepted
    have hagree := agentKey_eq_of_verify hS hhops haccepted hvalid
    rwa [hkey, agentKey_withAgentKey, Option.some_inj] at hagree
  · intro hsame
    rwa [withAgentKey_self (hkey.trans (congrArg some hsame))] at hvalid

end

/-- Two instances of the agent `a` are added, and then the first one again: the chain that it signed
verifies. -/
theorem replica_accepted_when_last :
    let key := fun (n : UInt8) => List.replicate 64 n
    let credential := fun (n : UInt8) =>
      let c : Credential := ⟨Bytes.ascii "a", (key n).drop 32, 0, 100, [], []⟩
      { c with signature := Sigctx.sign .free .workloadCredential (key 9) (canonical c) }
    let s := (KeyStore.new ((key 9).drop 32)).addPrincipalKey (Bytes.ascii "p") ((key 1).drop 32) 0
    let adds := [(credential 2, 1), (credential 3, 2), (credential 2, 3)]
    let g : Delegation.Grant := { tools := [], servers := [], notAfter := 0, budget := none }
    let first : Hop := ⟨Bytes.ascii "p", Bytes.ascii "a", g, Sigctx.sign .free .delegationHop (key 1)
      (Delegation.canonical (Bytes.ascii "p") (Bytes.ascii "a") g [])⟩
    let second : Hop := ⟨Bytes.ascii "a", Bytes.ascii "b", g, Sigctx.sign .free .delegationHop (key 2)
      (Delegation.canonical (Bytes.ascii "a") (Bytes.ascii "b") g first.signature)⟩
    Delegation.verify .free ((s.addEach .free adds).registry 4) (Bytes.ascii "p") 4
      ⟨[first, second]⟩ [] = .ok (g, Bytes.ascii "b") := by
  intro key credential s adds g first second
  have henrolled : enrolled .free s.caPub second.delegator adds =
      [credential 2, credential 3, credential 2] := by decide +kernel
  refine (replica_accepted_iff SignatureScheme.ideal_free s adds 4 ⟨[first, second]⟩ [] _ [] [] first
    second rfl (credential 2) ?_ ?_ ?_).mpr ?_
  · rw [henrolled]
    exact List.mem_cons_self
  · rw [henrolled]
    simp [credential]
  · decide +kernel
  · rw [henrolled]
    rfl

/-- The chain that the first instance signed verifies until the second one is added. -/
theorem replica_refused_after_sibling :
    let key := fun (n : UInt8) => List.replicate 64 n
    let credential := fun (n : UInt8) =>
      let c : Credential := ⟨Bytes.ascii "a", (key n).drop 32, 0, 100, [], []⟩
      { c with signature := Sigctx.sign .free .workloadCredential (key 9) (canonical c) }
    let s := (KeyStore.new ((key 9).drop 32)).addPrincipalKey (Bytes.ascii "p") ((key 1).drop 32) 0
    let g : Delegation.Grant := { tools := [], servers := [], notAfter := 0, budget := none }
    let first : Hop := ⟨Bytes.ascii "p", Bytes.ascii "a", g, Sigctx.sign .free .delegationHop (key 1)
      (Delegation.canonical (Bytes.ascii "p") (Bytes.ascii "a") g [])⟩
    let second : Hop := ⟨Bytes.ascii "a", Bytes.ascii "b", g, Sigctx.sign .free .delegationHop (key 2)
      (Delegation.canonical (Bytes.ascii "a") (Bytes.ascii "b") g first.signature)⟩
    let verdict := fun adds => Delegation.verify .free ((s.addEach .free adds).registry 4)
      (Bytes.ascii "p") 4 ⟨[first, second]⟩ []
    enrolled .free s.caPub (Bytes.ascii "a") [(credential 2, 1), (credential 3, 2)]
        = [credential 2, credential 3] ∧
      verdict [(credential 2, 1)] = .ok (g, Bytes.ascii "b") ∧
      verdict [(credential 2, 1), (credential 3, 2)] = .error (.invalidSignature 1) := by
  decide +kernel

end Sanad.Workload
