import Mathlib.Data.Set.Function
import Sanad.Pop.Client
import Sanad.Pop.Replay
import Sanad.Pop.Retention

/-! # Agreement on requests

A client makes proofs with its key, and the network between it and the verifier belongs to an
attacker: it keeps every proof it has seen, it holds the keys of everybody else, and it calls the
verifier with whatever it can put together. Each request that the verifier accepts under the client's
key is one that the client made a proof for, with the same method, target, token and body, and no two
of them go back to one proof.

A proof that is refused as a replay shares its id with one that was accepted.
-/

namespace Sanad.Pop

open Transition

/-! ## The network -/

/-- The verifier, and the proofs that the client has made, each with the request it is for. -/
structure Net where
  server : State
  made : List (Sent × Binding)

/-- A new verifier, and a client that has made no proof. -/
def Net.new (v : Verifier) (clock : ℤ) : Net := ⟨.new v clock, []⟩

inductive NetEvent where
  /-- The client makes a proof for a request: the reading of its own clock, and the random id. -/
  | prove (r : Sent) (now : ℤ) (random : Random)
  /-- A step of the verifier. -/
  | server (e : Event)

variable (S : SignatureScheme) (sha256 : Bytes → Bytes) (v : Verifier)

def netStep (s : Net) : NetEvent → Option Net
  | .prove r now random =>
    match newBinding sha256 r now (.ok random) with
    | .ok b => some { s with made := s.made ++ [(r, b)] }
    | .error _ => none
  | .server e => (step S sha256 v s.server e).map fun server => { s with server := server }

/-- The signatures under the client's key that are out in the network: those of the proofs it has
made, and any that it has made for another purpose. -/
def Net.seen (key : Bytes) (s : Net) : Set Bytes :=
  { sig | (∃ m ∈ s.made, sig = Sigctx.sign S v.ctx key m.2.encode) ∨
    ∃ ctx msg, ctx ≠ v.ctx ∧ sig = Sigctx.sign S ctx key msg }

/-- What the environment can do: the attacker presents what it can obtain, the client's requests are
valid UTF-8, and the calls come to the cache in order, as far as its turnovers go. -/
def Feasible (keys : Set Bytes) (key : Bytes) (s : Net) : NetEvent → Prop
  | .prove r _ _ => Utf8.valid r.method = true ∧ Utf8.valid r.target = true
  | .server (.check _ p _) => ∀ payload sig, parseProof p.header = .ok (payload, sig) →
      S.Obtainable keys (s.seen S v key) sig
  | .server (.use k) => InOrder s.server (.use k)

/-! ## Agreement -/

/-- The request that is presented is the one that the proof was made for. -/
structure Matches (r : Sent) (p : Presented) : Prop where
  request : ∃ url, p.request = some (r.method, url) ∧ target url = r.target
  token : sha256 p.token = sha256 r.token
  body : sha256 p.body = sha256 r.body

/-- What is presented carries the payload of a proof that the client has made for that request. -/
def Claimed (made : List (Sent × Binding)) (p : Presented) (m : Sent × Binding) : Prop :=
  m ∈ made ∧ (∃ sig, parseProof p.header = .ok (m.2.encode, sig)) ∧ Matches sha256 m.1 p

/-- The proofs that the client has made, and the calls that have passed the signature check under its
key. -/
structure NetInv (key : Bytes) (s : Net) : Prop where
  guarded : Guarded v s.server
  made : ∀ m ∈ s.made, ∃ now random, newBinding sha256 m.1 now (.ok random) = .ok m.2 ∧
    Utf8.valid m.1.method = true ∧ Utf8.valid m.1.target = true
  checked : ∀ k p jti now, s.server.calls k = .checked p jti now → p.pub = S.publicKey key →
    ∃ m, Claimed sha256 s.made p m
  accepted : ∀ k p, s.server.calls k = .returned p (.ok ()) → p.pub = S.publicKey key →
    ∃ m, Claimed sha256 s.made p m

section

variable {S sha256 v} {key : Bytes} {keys : Set Bytes}

theorem hash_injective {b b' : Bytes} (h : hash sha256 b = hash sha256 b') : sha256 b = sha256 b' := by
  have hdecode := congrArg Base64Url.decode h
  rwa [hash, hash, Base64Url.decode_encode, Base64Url.decode_encode, Option.some.injEq] at hdecode

theorem Claimed.mono {made made' : List (Sent × Binding)} {p : Presented} {m : Sent × Binding}
    (h : Claimed sha256 made p m) (hsub : made ⊆ made') : Claimed sha256 made' p m :=
  ⟨hsub h.1, h.2⟩

/-- A payload that verifies under the client's key is that of a proof it has made. -/
theorem made_of_verify {s : Net} {payload sig : Bytes} (hS : S.Ideal)
    (hkeys : ∀ priv ∈ keys, S.publicKey priv ≠ S.publicKey key)
    (hsig : S.Obtainable keys (s.seen S v key) sig)
    (h : Sigctx.verify S v.ctx (S.publicKey key) payload sig = true) :
    ∃ m ∈ s.made, payload = m.2.encode := by
  have hverify : S.verify (S.publicKey key) (Sigctx.message v.ctx payload) sig = true := by
    rw [Sigctx.verify, Bool.and_eq_true] at h
    exact h.2
  have hseen : sig ∈ s.seen S v key := hsig.mem_given hS hverify hkeys
  rcases hseen with ⟨m, hm, rfl⟩ | ⟨ctx, msg, hctx, rfl⟩
  · exact ⟨m, hm, (Sigctx.eq_of_verify_sign hS h).2.2.symm⟩
  · exact absurd (Sigctx.eq_of_verify_sign hS h).2.1 hctx

/-- A call that passes the checks presents a proof of the client, for the request it was made for. -/
theorem claimed_of_check {s : Net} {p : Presented} {jti : Bytes} {now : ℤ} (hS : S.Ideal)
    (hkeys : ∀ priv ∈ keys, S.publicKey priv ≠ S.publicKey key)
    (hmade : ∀ m ∈ s.made, ∃ now random, newBinding sha256 m.1 now (.ok random) = .ok m.2 ∧
      Utf8.valid m.1.method = true ∧ Utf8.valid m.1.target = true)
    (hsig : ∀ payload sig, parseProof p.header = .ok (payload, sig) →
      S.Obtainable keys (s.seen S v key) sig)
    (hcheck : v.check S sha256 p now = .ok jti) (hpub : p.pub = S.publicKey key) :
    ∃ m, Claimed sha256 s.made p m := by
  obtain ⟨b, hbind, -, -⟩ := check_eq_ok_iff.mp hcheck
  simp only [Verifier.bind, Except.bind_eq_ok_iff, Except.ofOption_eq_ok_iff,
    Except.require_eq_ok_iff] at hbind
  obtain ⟨-, -, ⟨method, url⟩, hrequest, -, -, ⟨payload, sig⟩, hparse, -, hverify, b', hdecode, -, hhtm,
    -, hhtu, -, hath, -, hbh, -, -, hb⟩ := hbind
  obtain rfl := Except.ok.inj hb
  rw [hpub] at hverify
  obtain ⟨m, hm, rfl⟩ := made_of_verify hS hkeys (hsig _ _ hparse) hverify
  obtain ⟨sent, random, hnew, hmethod, htarget⟩ := hmade m hm
  obtain ⟨hrange, hreread, hmath, hmbh, -, -⟩ := reread_newBinding hnew
  rw [Binding.decode_encode hrange, hreread, Option.some.injEq] at hdecode
  subst hdecode
  -- the method and the target come back from the payload, since they are valid UTF-8
  rw [Json.rereadPlain_eq_self_iff.mpr hmethod] at hhtm
  rw [Json.rereadPlain_eq_self_iff.mpr htarget] at hhtu
  refine ⟨m, hm, ⟨sig, hparse⟩, ⟨url, ?_, hhtu.symm⟩, ?_, ?_⟩
  · rw [hrequest]
    exact congrArg (fun method => some (method, url)) hhtm.symm
  · exact hash_injective (hath.symm.trans hmath)
  · exact hash_injective (hbh.symm.trans hmbh)

theorem netInv_new (clock : ℤ) (hwindow : 2 * (v.maxAge + v.skew) ≤ Time.maxDuration) :
    NetInv S sha256 v key (Net.new v clock) := by
  refine ⟨guarded_new clock hwindow, ?_, ?_, ?_⟩
  · rintro m ⟨⟩
  · rintro k p jti now ⟨⟩
  · rintro k p ⟨⟩

/-- What a step of the verifier can do to a call: it passes the checks or fails them, or it comes back
from the cache. -/
theorem calls_of_step {s s' : State} {e : Event} (h : step S sha256 v s e = some s') (k : ℕ) :
    s'.calls k = s.calls k ∨
    (s.calls k = .idle ∧ ∃ p now, e = .check k p now ∧
      ((∃ jti, v.check S sha256 p now = .ok jti ∧ s'.calls k = .checked p jti now) ∨
        ∃ e', v.check S sha256 p now = .error e' ∧ s'.calls k = .returned p (.error e'))) ∨
    ∃ p jti now, s.calls k = .checked p jti now ∧ s'.cache = (s.cache.use jti now).1 ∧
      s'.calls k = .returned p (s.cache.use jti now).2 := by
  cases e with
  | check j p now =>
      rw [step] at h
      split at h
      · next hidle =>
          split at h
          · cases h
            by_cases hk : k = j
            · subst hk
              refine .inr (.inl ⟨hidle, p, now, rfl, ?_⟩)
              cases hcheck : v.check S sha256 p now with
              | ok jti => exact .inl ⟨jti, rfl, Function.update_self ..⟩
              | error e' => exact .inr ⟨e', rfl, Function.update_self ..⟩
            · exact .inl (Function.update_of_ne hk _ _)
          · cases h
      · cases h
  | use j =>
      rw [step] at h
      split at h
      · next p jti now hj =>
          cases h
          by_cases hk : k = j
          · subst hk
            exact .inr (.inr ⟨p, jti, now, hj, rfl, Function.update_self ..⟩)
          · exact .inl (Function.update_of_ne hk _ _)
      · cases h

theorem NetInv.step {s s' : Net} {e : NetEvent} (hS : S.Ideal)
    (hkeys : ∀ priv ∈ keys, S.publicKey priv ≠ S.publicKey key)
    (hwindow : 2 * (v.maxAge + v.skew) ≤ Time.maxDuration) (hs : netStep S sha256 v s e = some s')
    (hfeasible : Feasible S v keys key s e) (h : NetInv S sha256 v key s) :
    NetInv S sha256 v key s' := by
  cases e with
  | prove r now random =>
      rw [netStep] at hs
      split at hs
      · next b hb =>
          cases hs
          have hsub : s.made ⊆ s.made ++ [(r, b)] := List.subset_append_left _ _
          refine ⟨h.guarded, ?_, ?_, ?_⟩
          · intro m hm
            rcases List.mem_append.mp hm with hm | hm
            · exact h.made m hm
            · rw [List.mem_singleton.mp hm]
              exact ⟨now, random, hb, hfeasible⟩
          · intro k p jti now hk hpub
            obtain ⟨m, hm⟩ := h.checked k p jti now hk hpub
            exact ⟨m, hm.mono hsub⟩
          · intro k p hk hpub
            obtain ⟨m, hm⟩ := h.accepted k p hk hpub
            exact ⟨m, hm.mono hsub⟩
      · cases hs
  | server e =>
      obtain ⟨server, hstep, rfl⟩ := Option.map_eq_some_iff.mp hs
      have horder : InOrder s.server e := by
        cases e with
        | check k p now => trivial
        | use k => exact hfeasible
      refine ⟨h.guarded.step hwindow hstep horder, h.made, ?_, ?_⟩
      · intro k p jti now hk hpub
        rcases calls_of_step hstep k with heq |
          ⟨-, p', now', rfl, ⟨jti', hcheck, heq⟩ | ⟨e', -, heq⟩⟩ | ⟨p', jti', now', hchecked, -, heq⟩ <;>
          rw [hk] at heq
        · exact h.checked k p jti now heq.symm hpub
        · cases heq
          exact claimed_of_check hS hkeys h.made hfeasible hcheck hpub
        · cases heq
        · cases heq
      · intro k p hk hpub
        rcases calls_of_step hstep k with heq |
          ⟨-, p', now', rfl, ⟨jti', hcheck, heq⟩ | ⟨e', -, heq⟩⟩ | ⟨p', jti', now', hchecked, -, heq⟩ <;>
          rw [hk] at heq
        · exact h.accepted k p heq.symm hpub
        · cases heq
        · cases heq
        · rw [Call.returned.injEq] at heq
          obtain ⟨rfl, -⟩ := heq
          exact h.checked k p jti' now' hchecked hpub

end

/-- The calls that have accepted a proof under a public key. -/
def Net.acceptedUnder (s : Net) (pub : Bytes) : Set ℕ :=
  { k | ∃ p, s.server.calls k = .returned p (.ok ()) ∧ p.pub = pub }

namespace Sample

/-- The binding of the client's proof, made at 1000 s of Unix time. -/
def proof : Binding :=
  ⟨hash id sent.token, hash id sent.body, sent.method, sent.target, Time.unix (Time.ofUnix 1000),
    Base64Url.encode random.1⟩

/-- The proof, presented with its request. -/
def call : Presented :=
  ⟨SignatureScheme.free.publicKey clientKey,
    proofHeader proof.encode (Sigctx.sign .free .instanceProof clientKey proof.encode),
    some (sent.method, some sentURL), sent.body, sent.token⟩

theorem check_call :
    (Verifier.new .instanceProof []).check .free id call (Time.ofUnix 1010) = .ok proof.jti := by
  have hb : newBinding id sent (Time.ofUnix 1000) (.ok random) = .ok proof := rfl
  exact (check_sign_iff (by decide) (by decide)
    (fun msg => (SignatureScheme.ideal_free.verify_iff _ _ _).mpr ⟨clientKey, rfl, rfl⟩) hb rfl
    (by decide) (by decide)).mpr (by decide)

/-- The client makes its proof, and the attacker delivers it. -/
def delivered : List NetEvent :=
  [.prove sent (Time.ofUnix 1000) random, .server (.check 0 call (Time.ofUnix 1010)),
    .server (.use 0)]

end Sample

/-- The call was accepted, for a proof with the given id. -/
def State.AcceptedID (s : State) (k : ℕ) (jti : Bytes) : Prop :=
  ∃ p b, s.calls k = .returned p (.ok ()) ∧ Bound p b ∧ b.jti = jti

/-- Every id in the cache is that of an accepted call, and no id is there twice. A call that the cache
has refused was refused for an id that another call was accepted for, or for as many accepted calls as
the cache has room for. -/
structure Backed (room : ℤ) (s : State) : Prop where
  max : s.cache.max = room
  distinct : (s.cache.cur ++ s.cache.prev).Nodup
  cached : ∀ jti ∈ s.cache.cur ++ s.cache.prev, ∃ k, s.AcceptedID k jti
  checked : ∀ k p jti now, s.calls k = .checked p jti now → ∃ b, Bound p b ∧ b.jti = jti
  replayed : ∀ k p, s.calls k = .returned p (.error .replayed) →
    ∃ b, Bound p b ∧ ∃ k', s.AcceptedID k' b.jti
  full : ∀ k p, s.calls k = .returned p (.error .cacheFull) →
    ∃ ks : List ℕ, ks.Nodup ∧ room ≤ ks.length ∧ ∀ j ∈ ks, ∃ jti, s.AcceptedID j jti

section

variable {S sha256 v}

/-- The checks before the cache never fail with an error of the cache. -/
theorem check_ne_cache_error (p : Presented) (now : ℤ) :
    v.check S sha256 p now ≠ .error .replayed ∧ v.check S sha256 p now ≠ .error .cacheFull := by
  constructor <;> intro h <;>
    simp [Verifier.check, Verifier.bind, Verifier.fresh, parseProof, Except.bind_eq_error_iff,
      Except.require_eq_error_iff, Except.ofOption_eq_error_iff] at h

theorem nodup_rotate {c : ReplayCache} (now : ℤ) (h : (c.cur ++ c.prev).Nodup) :
    ((c.rotate now).cur ++ (c.rotate now).prev).Nodup := by
  have hcur : c.cur.Nodup := (List.nodup_append.mp h).1
  unfold ReplayCache.rotate
  dsimp only
  split_ifs
  · exact h
  · exact h
  · exact List.nodup_nil
  · exact hcur

theorem mem_of_mem_rotate {c : ReplayCache} {now : ℤ} {jti : Bytes}
    (h : jti ∈ (c.rotate now).cur ++ (c.rotate now).prev) : jti ∈ c.cur ++ c.prev :=
  List.mem_append.mpr (remembers_of_rotate (List.mem_append.mp h))

/-- An accepted call stays accepted. -/
theorem State.AcceptedID.step {s s' : State} {e : Event} {k : ℕ} {jti : Bytes}
    (h : s.AcceptedID k jti) (hs : step S sha256 v s e = some s') : s'.AcceptedID k jti := by
  obtain ⟨p, b, hk, hb⟩ := h
  rcases calls_of_step hs k with heq | ⟨hidle, -⟩ | ⟨_, _, _, hchecked, -⟩
  · exact ⟨p, b, heq.trans hk, hb⟩
  · rw [hk] at hidle
    cases hidle
  · rw [hk] at hchecked
    cases hchecked

/-- A call has the id of one proof. -/
theorem State.AcceptedID.unique {s : State} {k : ℕ} {jti jti' : Bytes} (h : s.AcceptedID k jti)
    (h' : s.AcceptedID k jti') : jti = jti' := by
  obtain ⟨p, b, hk, ⟨payload, sig, hparse, hdecode⟩, rfl⟩ := h
  obtain ⟨p', b', hk', hb', rfl⟩ := h'
  rw [hk, Call.returned.injEq] at hk'
  obtain ⟨rfl, -⟩ := hk'
  exact congrArg Binding.jti (bound_unique ⟨payload, sig, hparse, hdecode⟩ hb' hparse hparse)

/-- As many accepted calls as there are ids in the cache. -/
theorem exists_calls {s : State} {ids : List Bytes} (hnodup : ids.Nodup)
    (hids : ∀ jti ∈ ids, ∃ k, s.AcceptedID k jti) :
    ∃ ks : List ℕ, ks.Nodup ∧ ks.length = ids.length ∧ ∀ k ∈ ks, ∃ jti ∈ ids, s.AcceptedID k jti := by
  induction ids with
  | nil => exact ⟨[], List.nodup_nil, rfl, by simp⟩
  | cons jti ids ih =>
      obtain ⟨hnew, hnodup⟩ := List.nodup_cons.mp hnodup
      rw [List.forall_mem_cons] at hids
      obtain ⟨k, hk⟩ := hids.1
      obtain ⟨ks, hks, hlen, hall⟩ := ih hnodup hids.2
      refine ⟨k :: ks, List.nodup_cons.mpr ⟨?_, hks⟩, by rw [List.length_cons, hlen, List.length_cons],
        List.forall_mem_cons.mpr ⟨⟨jti, List.mem_cons_self, hk⟩, ?_⟩⟩
      · intro hmem
        obtain ⟨jti', hjti', hk'⟩ := hall k hmem
        exact hnew (hk.unique hk' ▸ hjti')
      · intro j hj
        obtain ⟨jti', hjti', hj'⟩ := hall j hj
        exact ⟨jti', List.mem_cons_of_mem jti hjti', hj'⟩

theorem bound_of_check {p : Presented} {jti : Bytes} {now : ℤ}
    (h : v.check S sha256 p now = .ok jti) : ∃ b, Bound p b ∧ b.jti = jti := by
  obtain ⟨b, hbind, -, hjti⟩ := check_eq_ok_iff.mp h
  simp only [Verifier.bind, Except.bind_eq_ok_iff, Except.ofOption_eq_ok_iff] at hbind
  obtain ⟨-, -, -, -, -, -, ⟨payload, sig⟩, hparse, -, -, b', hdecode, -, -, -, -, -, -, -, -, -, -, hb⟩ :=
    hbind
  obtain rfl := Except.ok.inj hb
  exact ⟨b', ⟨payload, sig, hparse, hdecode⟩, hjti⟩

/-- What a step of the verifier can do to the cache. -/
theorem cache_of_step {s s' : State} {e : Event} (h : step S sha256 v s e = some s') :
    s'.cache = s.cache ∨ ∃ k p jti now, s.calls k = .checked p jti now ∧
      s'.cache = (s.cache.use jti now).1 ∧ s'.calls k = .returned p (s.cache.use jti now).2 := by
  cases e with
  | check j p now =>
      rw [step] at h
      split at h
      · split at h <;> cases h
        exact .inl rfl
      · cases h
  | use j =>
      rw [step] at h
      split at h
      · next p jti now hj =>
          cases h
          exact .inr ⟨j, p, jti, now, hj, rfl, Function.update_self ..⟩
      · cases h

/-- What a use leaves in the cache: what a turnover leaves, and the id if it was accepted. -/
theorem cache_use {c : ReplayCache} (jti : Bytes) (now : ℤ) (hnodup : (c.cur ++ c.prev).Nodup) :
    (c.use jti now).1.max = c.max ∧ ((c.use jti now).1.cur ++ (c.use jti now).1.prev).Nodup ∧
      ∀ id ∈ (c.use jti now).1.cur ++ (c.use jti now).1.prev,
        id ∈ c.cur ++ c.prev ∨ id = jti ∧ (c.use jti now).2 = .ok () := by
  have hrotate := nodup_rotate now hnodup
  rcases use_cases (c := c) jti now with ⟨⟨hcur, hprev, -⟩, heq⟩ | ⟨e, heq⟩ <;> rw [heq]
  · refine ⟨max_rotate, List.nodup_cons.mpr ⟨?_, hrotate⟩, ?_⟩
    · exact fun hmem => (List.mem_append.mp hmem).elim hcur hprev
    · intro id hid
      rcases List.mem_cons.mp hid with rfl | hid
      · exact .inr ⟨rfl, rfl⟩
      · exact .inl (mem_of_mem_rotate hid)
  · exact ⟨max_rotate, hrotate, fun id hid => .inl (mem_of_mem_rotate hid)⟩

/-- Why the cache refuses an id. -/
theorem refused_use {c : ReplayCache} {jti : Bytes} {now : ℤ} :
    ((c.use jti now).2 = .error .replayed → jti ∈ c.cur ++ c.prev) ∧
      ((c.use jti now).2 = .error .cacheFull → c.max ≤ (c.cur ++ c.prev).length) := by
  unfold ReplayCache.use
  dsimp only
  have hmem : jti ∈ (c.rotate now).cur ++ (c.rotate now).prev → jti ∈ c.cur ++ c.prev :=
    mem_of_mem_rotate
  rw [List.mem_append] at hmem
  split_ifs with hcur hprev hfull
  · exact ⟨fun _ => hmem (.inl hcur), by rintro ⟨⟩⟩
  · exact ⟨fun _ => hmem (.inr hprev), by rintro ⟨⟩⟩
  · refine ⟨by rintro ⟨⟩, fun _ => ?_⟩
    have hlen : (c.rotate now).len ≤ c.len := len_rotate_le
    rw [max_rotate] at hfull
    rw [ReplayCache.len, ReplayCache.len] at hlen
    rw [List.length_append]
    omega
  · exact ⟨by rintro ⟨⟩, by rintro ⟨⟩⟩

theorem backed_new (clock : ℤ) : Backed v.cache.max (State.new v clock) := by
  refine ⟨rfl, List.nodup_nil, ?_, ?_, ?_, ?_⟩
  · rintro jti ⟨⟩
  · rintro k p jti now ⟨⟩
  · rintro k p ⟨⟩
  · rintro k p ⟨⟩

theorem Backed.step {room : ℤ} {s s' : State} {e : Event} (h : Backed room s)
    (hs : step S sha256 v s e = some s') : Backed room s' := by
  have hcache : s'.cache.max = room ∧ (s'.cache.cur ++ s'.cache.prev).Nodup ∧
      ∀ jti ∈ s'.cache.cur ++ s'.cache.prev, ∃ k, s'.AcceptedID k jti := by
    rcases cache_of_step hs with heq | ⟨k, p, jti, now, hk, heq, hk'⟩
    · rw [heq]
      refine ⟨h.max, h.distinct, fun jti hjti => ?_⟩
      obtain ⟨k, hk⟩ := h.cached jti hjti
      exact ⟨k, hk.step hs⟩
    · obtain ⟨hmax, hnodup, hids⟩ := cache_use jti now h.distinct
      rw [heq]
      refine ⟨hmax.trans h.max, hnodup, fun id hid => ?_⟩
      rcases hids id hid with hid | ⟨rfl, hok⟩
      · obtain ⟨k, hk⟩ := h.cached id hid
        exact ⟨k, hk.step hs⟩
      · obtain ⟨b, hb⟩ := h.checked k p id now hk
        rw [hok] at hk'
        exact ⟨k, p, b, hk', hb⟩
  refine ⟨hcache.1, hcache.2.1, hcache.2.2, ?_, ?_, ?_⟩
  · intro k p jti now hk
    rcases calls_of_step hs k with heq |
      ⟨-, p', now', -, ⟨jti', hcheck, heq⟩ | ⟨e', -, heq⟩⟩ | ⟨p', jti', now', -, -, heq⟩ <;>
      rw [hk] at heq <;> try cases heq
    · exact h.checked k p jti now heq.symm
    · exact bound_of_check hcheck
  · intro k p hk
    rcases calls_of_step hs k with heq |
      ⟨-, p', now', -, ⟨jti', -, heq⟩ | ⟨e', hcheck, heq⟩⟩ | ⟨p', jti', now', hchecked, -, heq⟩ <;>
      rw [hk] at heq
    · obtain ⟨b, hb, k', hk'⟩ := h.replayed k p heq.symm
      exact ⟨b, hb, k', hk'.step hs⟩
    · cases heq
    · cases heq
      exact absurd hcheck (check_ne_cache_error p now').1
    · rw [Call.returned.injEq] at heq
      obtain ⟨rfl, hrefused⟩ := heq
      obtain ⟨b, hb, rfl⟩ := h.checked k p jti' now' hchecked
      obtain ⟨k', hk'⟩ := h.cached b.jti (refused_use.1 hrefused.symm)
      exact ⟨b, hb, k', hk'.step hs⟩
  · intro k p hk
    rcases calls_of_step hs k with heq |
      ⟨-, p', now', -, ⟨jti', -, heq⟩ | ⟨e', hcheck, heq⟩⟩ | ⟨p', jti', now', hchecked, -, heq⟩ <;>
      rw [hk] at heq
    · obtain ⟨ks, hnodup, hlen, hks⟩ := h.full k p heq.symm
      refine ⟨ks, hnodup, hlen, fun j hj => ?_⟩
      obtain ⟨jti, hjti⟩ := hks j hj
      exact ⟨jti, hjti.step hs⟩
    · cases heq
    · cases heq
      exact absurd hcheck (check_ne_cache_error p now').2
    · rw [Call.returned.injEq] at heq
      obtain ⟨rfl, hrefused⟩ := heq
      obtain ⟨ks, hnodup, hlen, hks⟩ := exists_calls h.distinct h.cached
      refine ⟨ks, hnodup, ?_, fun j hj => ?_⟩
      · rw [hlen, ← h.max]
        exact refused_use.2 hrefused.symm
      · obtain ⟨jti, -, hj'⟩ := hks j hj
        exact ⟨jti, hj'.step hs⟩

end

/-- The cache refuses nobody without cause, whatever the order of the calls and of their clock values: a
call that is refused as a replay presents the id of a proof that another call was accepted for, and a
call is refused for lack of room only after as many other calls were accepted as there is room for. -/
theorem refusal_sound {S : SignatureScheme} {sha256 : Bytes → Bytes} {v : Verifier} {clock : ℤ}
    {es : List Event} {s : State} (hrun : run (step S sha256 v) (State.new v clock) es = some s) (k : ℕ)
    (p : Presented) :
    (s.calls k = .returned p (.error .replayed) → ∃ b, Bound p b ∧ ∃ k' p' b', k' ≠ k ∧
      s.calls k' = .returned p' (.ok ()) ∧ Bound p' b' ∧ b'.jti = b.jti) ∧
    (s.calls k = .returned p (.error .cacheFull) → ∃ ks : List ℕ, ks.Nodup ∧
      v.cache.max ≤ ks.length ∧ ∀ j ∈ ks, ∃ p', s.calls j = .returned p' (.ok ())) := by
  have hbacked : Backed v.cache.max s := Transition.invariant (I := Backed v.cache.max)
    (fun _ _ _ hs h => h.step hs) hrun (backed_new clock)
  constructor
  · intro hk
    obtain ⟨b, hb, k', p', b', hk', hb'⟩ := hbacked.replayed k p hk
    refine ⟨b, hb, k', p', b', ?_, hk', hb'⟩
    rintro rfl
    rw [hk] at hk'
    cases hk'
  · intro hk
    obtain ⟨ks, hnodup, hlen, hks⟩ := hbacked.full k p hk
    refine ⟨ks, hnodup, hlen, fun j hj => ?_⟩
    obtain ⟨jti, p', b, hj', -⟩ := hks j hj
    exact ⟨p', hj'⟩

open Sample in
theorem refusal_sound_sample :
    ∃ s p, run (step .free id verifier) (State.new verifier 0) inOrder = some s ∧
      s.calls 3 = .returned p (.error .replayed) ∧
      ∃ k' p', k' ≠ 3 ∧ s.calls k' = .returned p' (.ok ()) := by
  have hcall : ((run (step .free id verifier) (State.new verifier 0) inOrder).map fun s => s.calls 3) =
      some (.returned (presented 1000 (Bytes.ascii "p")) (.error .replayed)) := by
    decide +kernel
  obtain ⟨s, hrun, hs⟩ := Option.map_eq_some_iff.mp hcall
  obtain ⟨-, -, k', p', -, hne, hk', -⟩ := (refusal_sound hrun 3 _).1 hs
  exact ⟨s, _, hrun, hs, k', p', hne, hk'⟩

end Sanad.Pop
