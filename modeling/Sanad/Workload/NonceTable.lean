import Sanad.Common.Base64Url
import Sanad.Workload.Enrollment
import Sanad.Workload.Ratelimit

/-! # The nonce table behind the rate limit

`workload/enroll.go`: the two handlers of the authority. Both ask the limiter first; one adds a nonce
to the table and the other takes one out. A handler reads the clock for the limiter and the authority
reads it again; `serve` takes the two readings to be one, so that a nonce is created at the instant at
which the limiter admitted its request.

The nonces that have not expired were all admitted within the last `nonceTTL`, and the calls since
the first of them are one run of the limiter, so the global bucket bounds their number.
-/

namespace Sanad.Workload

/-- What the handlers share: the limiter and the outstanding nonces. -/
structure Service where
  limiter : Limiter
  nonces : Nonces

/-- `http.MethodPost` -/
def methodPost : Bytes := Bytes.ascii "POST"

/-- The answers of `NonceHandler`. -/
inductive NonceReply where
  /-- 405 -/
  | methodNotAllowed
  /-- 429 `enrollment rate limit exceeded`, with the seconds of its `Retry-After`. -/
  | rateLimited (retryAfter : ℤ)
  /-- 503 `cannot issue enrollment nonce` -/
  | unavailable (e : EnrollError)
  /-- `nonceResponse` -/
  | issued (nonce : Bytes) (expiresIn : ℤ)
  deriving DecidableEq, Repr

/-- `NonceHandler`, for a request of a client: `now` is the limiter's reading of the clock, and `n`
and `clock` are the nonce that `Nonce` draws and its own reading. -/
def nonceHandler (a : Authority) (s : Service) (method client n : Bytes) (now clock : ℤ) :
    NonceReply × Service :=
  if method ≠ methodPost then (.methodNotAllowed, s)
  else
    let (ok, limiter) := s.limiter.allow client now
    if !ok then (.rateLimited (limiter.retryAfter.tdiv Time.second), ⟨limiter, s.nonces⟩)
    else
      match a.nonce s.nonces n clock with
      | (.error e, nonces) => (.unavailable e, ⟨limiter, nonces⟩)
      | (.ok n, nonces) =>
        (.issued (Base64Url.encode n) (a.nonceTTL.tdiv Time.second), ⟨limiter, nonces⟩)

/-- What `EnrollHandler` does to the limiter and the nonces: `body` is the nonce and the key that
the request decodes to, if it does, and `clock` is the reading of `Issue`. -/
def enrollHandler (s : Service) (method client : Bytes) (body : Option (Bytes × Bytes))
    (now clock : ℤ) : Service :=
  if method ≠ methodPost then s
  else
    let (ok, limiter) := s.limiter.allow client now
    if !ok then ⟨limiter, s.nonces⟩
    else
      match body with
      | none => ⟨limiter, s.nonces⟩
      | some (nonce, pubKey) => ⟨limiter, (present s.nonces nonce pubKey clock).2⟩

/-- What reaches the authority. -/
inductive Arrival where
  /-- A request to `NonceHandler`. -/
  | nonce (method client n : Bytes)
  /-- A request to `EnrollHandler`. -/
  | enroll (method client : Bytes) (body : Option (Bytes × Bytes))
  /-- A call of `Issue` that no handler makes. -/
  | issue (nonce pubKey : Bytes)

/-- The effect of an arrival at an instant, which all readings of the clock give. -/
def serve (a : Authority) (s : Service) : ℤ × Arrival → Service
  | (now, .nonce method client n) => (nonceHandler a s method client n now now).2
  | (now, .enroll method client body) => enrollHandler s method client body now now
  | (now, .issue nonce pubKey) => ⟨s.limiter, (present s.nonces nonce pubKey now).2⟩

/-- The state after a sequence of arrivals. -/
def Service.after (a : Authority) (s : Service) (es : List (ℤ × Arrival)) : Service :=
  es.foldl (serve a) s

/-- A new service with a budget. -/
def Service.new (el : EnrollLimit) : Service := ⟨newLimiter el, ∅⟩

/-- The call of the limiter that an arrival makes, if any. -/
def limiterCall : ℤ × Arrival → Option Call
  | (now, .nonce method client _) => if method ≠ methodPost then none else some ⟨client, now⟩
  | (now, .enroll method client _) => if method ≠ methodPost then none else some ⟨client, now⟩
  | (_, .issue _ _) => none

/-! ## The table -/

/-- How many nonces expire after an instant. -/
def expiringAfter (nonces : Nonces) (t : ℤ) : ℕ := nonces.entries.countP fun e => t < e.2

theorem length_sweep (nonces : Nonces) (now : ℤ) :
    (sweep nonces now).entries.length = expiringAfter nonces now :=
  List.countP_eq_length_filter.symm

theorem expiringAfter_sweep_le (nonces : Nonces) (now t : ℤ) :
    expiringAfter (sweep nonces now) t ≤ expiringAfter nonces t :=
  List.filter_sublist.countP_le

theorem expiringAfter_erase_le (nonces : Nonces) (n : Bytes) (t : ℤ) :
    expiringAfter (nonces.erase n) t ≤ expiringAfter nonces t :=
  (List.kerase_sublist n _).countP_le

theorem expiringAfter_insert_le (nonces : Nonces) (n : Bytes) (exp t : ℤ) :
    expiringAfter (nonces.insert n exp) t ≤ expiringAfter nonces t + if t < exp then 1 else 0 := by
  rw [expiringAfter, AList.entries_insert, List.countP_cons]
  have := (List.kerase_sublist n nonces.entries).countP_le (p := fun e => decide (t < e.2))
  simp only [decide_eq_true_eq]
  exact Nat.add_le_add_right this _

/-- Spending a nonce adds none. -/
theorem expiringAfter_present_le (nonces : Nonces) (nonce pubKey : Bytes) (now t : ℤ) :
    expiringAfter (present nonces nonce pubKey now).2 t ≤ expiringAfter nonces t := by
  rw [present]
  split
  · exact le_rfl
  · rw [consumeNonce]
    split
    · exact le_rfl
    · exact expiringAfter_erase_le nonces nonce t

/-- `Nonce` adds at most one, which expires after its lifetime. -/
theorem expiringAfter_nonce_le (a : Authority) (nonces : Nonces) (n : Bytes) (now t : ℤ) :
    expiringAfter (a.nonce nonces n now).2 t ≤
      expiringAfter nonces t + if t < now + a.nonceTTL then 1 else 0 := by
  have hsweep := expiringAfter_sweep_le nonces now t
  simp only [Authority.nonce]
  split
  · exact hsweep.trans (Nat.le_add_right _ _)
  · exact (expiringAfter_insert_le _ n _ t).trans (Nat.add_le_add_right hsweep _)

/-! ## One arrival -/

/-- The state after a request to `NonceHandler` that goes past its method. -/
theorem nonceHandler_state (a : Authority) (s : Service) (client n : Bytes) (now clock : ℤ) :
    (nonceHandler a s methodPost client n now clock).2 =
      ⟨(s.limiter.allow client now).2,
        if (s.limiter.allow client now).1 then (a.nonce s.nonces n clock).2 else s.nonces⟩ := by
  rw [nonceHandler, if_neg (fun h => h rfl)]
  obtain ⟨ok, limiter⟩ := s.limiter.allow client now
  obtain ⟨result, nonces⟩ := a.nonce s.nonces n clock
  cases ok <;> cases result <;> rfl

/-- The state after a request to `EnrollHandler` that goes past its method. -/
theorem enrollHandler_state (s : Service) (client : Bytes) (body : Option (Bytes × Bytes))
    (now clock : ℤ) :
    enrollHandler s methodPost client body now clock =
      ⟨(s.limiter.allow client now).2,
        if (s.limiter.allow client now).1 then
          body.elim s.nonces fun p => (present s.nonces p.1 p.2 clock).2
        else s.nonces⟩ := by
  rw [enrollHandler, if_neg (fun h => h rfl)]
  cases s.limiter.allow client now with
  | mk ok limiter => cases ok <;> cases body <;> rfl

/-- What an arrival can do: nothing to the limiter if it makes no call, and otherwise a call of it;
to the table it adds at most a nonce, and only if it makes a call that is admitted. -/
theorem serve_spec (a : Authority) (s : Service) (e : ℤ × Arrival) :
    (limiterCall e = none ∧ (serve a s e).limiter = s.limiter ∧
      ∀ t, expiringAfter (serve a s e).nonces t ≤ expiringAfter s.nonces t) ∨
    ∃ c, limiterCall e = some c ∧ c.now = e.1 ∧
      (serve a s e).limiter = (s.limiter.allow c.client c.now).2 ∧
      ∀ t, expiringAfter (serve a s e).nonces t ≤ expiringAfter s.nonces t +
        if (s.limiter.allow c.client c.now).1 = true ∧ t < e.1 + a.nonceTTL then 1 else 0 := by
  obtain ⟨now, arrival⟩ := e
  cases arrival with
  | nonce method client n =>
      by_cases hmethod : method = methodPost
      · subst hmethod
        refine .inr ⟨⟨client, now⟩, rfl, rfl, ?_, fun t => ?_⟩
        · rw [serve, nonceHandler_state]
        · rw [serve, nonceHandler_state]
          dsimp only
          by_cases hok : (s.limiter.allow client now).1 = true
          · simp only [hok, true_and]
            exact expiringAfter_nonce_le a s.nonces n now t
          · simp only [hok]
            exact le_rfl
      · exact .inl ⟨by simp [limiterCall, hmethod], by simp [serve, nonceHandler, hmethod],
          fun t => by simp [serve, nonceHandler, hmethod]⟩
  | enroll method client body =>
      by_cases hmethod : method = methodPost
      · subst hmethod
        refine .inr ⟨⟨client, now⟩, rfl, rfl, ?_, fun t => ?_⟩
        · rw [serve, enrollHandler_state]
        · rw [serve, enrollHandler_state]
          -- a presented nonce is only ever taken out
          refine le_trans ?_ (Nat.le_add_right _ _)
          dsimp only
          split
          · cases body with
            | none => exact le_rfl
            | some p => exact expiringAfter_present_le _ _ _ _ t
          · exact le_rfl
      · exact .inl ⟨by simp [limiterCall, hmethod], by simp [serve, enrollHandler, hmethod],
          fun t => by simp [serve, enrollHandler, hmethod]⟩
  | issue nonce pubKey =>
      exact .inl ⟨rfl, rfl, fun t => expiringAfter_present_le _ _ _ _ t⟩

/-! ## Runs -/

/-- The calls that a sequence of arrivals makes. -/
def limiterCalls (es : List (ℤ × Arrival)) : List Call := es.filterMap limiterCall

/-- How many calls of a sequence are later than an instant and admitted. -/
def admittedAfter (l : Limiter) (cs : List Call) (t : ℤ) : ℕ :=
  (l.log cs).countP fun e => e.2 && t < e.1.now

theorem admittedAfter_append (l : Limiter) (cs cs' : List Call) (t : ℤ) :
    admittedAfter l (cs ++ cs') t = admittedAfter l cs t + admittedAfter (l.after cs) cs' t := by
  rw [admittedAfter, Limiter.log_append, List.countP_append]
  rfl

/-- Every nonce of the table comes from a call that was admitted when the nonce was created. -/
theorem expiringAfter_le_admittedAfter (a : Authority) (s : Service) (es : List (ℤ × Arrival))
    (t : ℤ) :
    (s.after a es).limiter = s.limiter.after (limiterCalls es) ∧
    expiringAfter (s.after a es).nonces (t + a.nonceTTL) ≤
      expiringAfter s.nonces (t + a.nonceTTL) + admittedAfter s.limiter (limiterCalls es) t := by
  induction es generalizing s with
  | nil => exact ⟨rfl, Nat.le_add_right _ _⟩
  | cons e es ih =>
      obtain ⟨hlimiter, hle⟩ := ih (serve a s e)
      obtain ⟨hcall, hsame, hnonces⟩ | ⟨c, hcall, hnow, hnext, hnonces⟩ := serve_spec a s e
      · have hcalls : limiterCalls (e :: es) = limiterCalls es := List.filterMap_cons_none hcall
        rw [hsame] at hlimiter hle
        rw [hcalls]
        exact ⟨hlimiter, hle.trans (Nat.add_le_add_right (hnonces _) _)⟩
      · have hcalls : limiterCalls (e :: es) = [c] ++ limiterCalls es :=
          List.filterMap_cons_some hcall
        rw [hnext] at hlimiter hle
        rw [hcalls, admittedAfter_append, Limiter.after_append]
        refine ⟨hlimiter, ?_⟩
        -- a nonce outlives `t + nonceTTL` exactly if it was created after `t`
        have hone : (if (s.limiter.allow c.client c.now).1 = true ∧
            t + a.nonceTTL < e.1 + a.nonceTTL then 1 else 0) = admittedAfter s.limiter [c] t := by
          simp [admittedAfter, Limiter.log, List.countP_singleton, hnow]
        have hadd := hnonces (t + a.nonceTTL)
        rw [hone] at hadd
        have hrest : s.limiter.after [c] = (s.limiter.allow c.client c.now).2 := rfl
        rw [hrest]
        exact (hle.trans (Nat.add_le_add_right hadd _)).trans (by omega)

/-- The calls since the first one after an instant are one run of the limiter, which the global
bucket bounds. -/
theorem Limiter.Sound.admittedAfter_le {l : Limiter} (hl : l.Sound) {cs : List Call} {t d : ℤ}
    (hd : 0 ≤ d) (hlatest : ∀ c ∈ cs, c.now ≤ t + d) (hzero : ∀ c ∈ cs, c.now ≠ 0) :
    (admittedAfter l cs t : ℚ) ≤ l.burst none + l.rate none * seconds d := by
  have hseconds : 0 ≤ seconds d := by simpa [seconds] using seconds_le_seconds hd
  induction cs generalizing l with
  | nil =>
      have := mul_nonneg (hl.rate_nonneg none) hseconds
      have := hl.burst_nonneg none
      simp only [admittedAfter, Limiter.log, List.countP_nil, Nat.cast_zero]
      linarith
  | cons c cs ih =>
      by_cases hc : c.now ≤ t
      · -- the run has not started
        have hskip : admittedAfter l (c :: cs) t =
            admittedAfter (l.allow c.client c.now).2 cs t := by
          simp [admittedAfter, Limiter.log, hc]
        rw [hskip, ← rate_allow l c none, ← burst_allow l c none]
        exact ih (hl.allow c) (fun c' hc' => hlatest c' (List.mem_cons_of_mem c hc'))
          fun c' hc' => hzero c' (List.mem_cons_of_mem c hc')
      · -- it starts here; later calls may be earlier than `t`, and are counted all the same
        have hall : (c :: cs).filter (Lane.takes none) = c :: cs :=
          List.filter_eq_self.mpr fun _ _ => rfl
        have hle : (l.admitted none (c :: cs) : ℚ) ≤
            l.burst none + l.rate none * seconds (t + d - c.now) :=
          hl.admitted_le (by rw [hall]; rfl) (by rwa [hall]) (by rwa [hall])
        have hcount : admittedAfter l (c :: cs) t ≤ l.admitted none (c :: cs) :=
          List.countP_mono_left fun e _ he => by
            rw [Bool.and_eq_true] at he
            exact he.1
        have hwindow : seconds (t + d - c.now) ≤ seconds d := seconds_le_seconds (by omega)
        calc (admittedAfter l (c :: cs) t : ℚ)
          _ ≤ l.admitted none (c :: cs) := by exact_mod_cast hcount
          _ ≤ l.burst none + l.rate none * seconds (t + d - c.now) := hle
          _ ≤ l.burst none + l.rate none * seconds d := by
            have := mul_le_mul_of_nonneg_left hwindow (hl.rate_nonneg none)
            linarith

/-! ## The bounds -/

/-- The number of outstanding nonces that have not expired. -/
theorem unexpired_le (el : EnrollLimit) {a : Authority} (hTTL : 0 ≤ a.nonceTTL)
    {es : List (ℤ × Arrival)} {t : ℤ} (hlatest : ∀ e ∈ es, e.1 ≤ t) (hzero : ∀ e ∈ es, e.1 ≠ 0) :
    ((sweep ((Service.new el).after a es).nonces t).entries.length : ℚ) ≤
      el.orDefault.globalBurst + el.orDefault.globalPerMin / 60 * seconds a.nonceTTL := by
  have hcall : ∀ c ∈ limiterCalls es, ∃ e ∈ es, e.1 = c.now := by
    intro c hc
    obtain ⟨e, he, hec⟩ := List.mem_filterMap.mp hc
    obtain ⟨hnone, -⟩ | ⟨c', hc', hnow, -⟩ := serve_spec a (Service.new el) e
    · rw [hnone] at hec
      cases hec
    · rw [hc'] at hec
      cases hec
      exact ⟨e, he, hnow.symm⟩
  have hcount := (expiringAfter_le_admittedAfter a (Service.new el) es (t - a.nonceTTL)).2
  rw [Int.sub_add_cancel, ← length_sweep] at hcount
  have hempty : expiringAfter (Service.new el).nonces t = 0 := rfl
  have hbound : (admittedAfter (newLimiter el) (limiterCalls es) (t - a.nonceTTL) : ℚ) ≤
      (newLimiter el).burst none + (newLimiter el).rate none * seconds a.nonceTTL := by
    refine (sound_newLimiter el).admittedAfter_le hTTL (fun c hc => ?_) fun c hc => ?_
    · obtain ⟨e, he, hnow⟩ := hcall c hc
      rw [Int.sub_add_cancel, ← hnow]
      exact hlatest e he
    · obtain ⟨e, he, hnow⟩ := hcall c hc
      exact hnow ▸ hzero e he
  rw [hempty, Nat.zero_add] at hcount
  rw [burst_newLimiter, rate_newLimiter] at hbound
  exact (Nat.cast_le.mpr hcount).trans hbound

theorem nonceTTL_of_new {caPriv kid : Bytes} {ttl : ℤ} {a : Authority}
    (h : Authority.new caPriv kid ttl = .ok a) : a.nonceTTL = nonceTTL := by
  obtain ⟨-, ha⟩ := Except.check_bind_eq_ok_iff.mp h
  obtain rfl := Except.ok.inj ha
  rfl

/-- The defaults leave room in the table. -/
theorem nonce_eq_ok {a : Authority} (hTTL : a.nonceTTL = nonceTTL) {es : List (ℤ × Arrival)}
    {now : ℤ} (hlatest : ∀ e ∈ es, e.1 ≤ now) (hzero : ∀ e ∈ es, e.1 ≠ 0) (n : Bytes) :
    (a.nonce ((Service.new defaultEnrollLimit).after a es).nonces n now).1 = .ok n := by
  have hle := unexpired_le defaultEnrollLimit (a := a) (by rw [hTTL]; decide) hlatest hzero
  have hbound : (defaultEnrollLimit.orDefault.globalBurst : ℚ) +
      defaultEnrollLimit.orDefault.globalPerMin / 60 * seconds a.nonceTTL = 600 := by
    have hfigures : defaultEnrollLimit.orDefault.globalBurst = 200 ∧
        defaultEnrollLimit.orDefault.globalPerMin = 200 := by decide
    rw [hfigures.1, hfigures.2, hTTL, seconds, nonceTTL, Time.second]
    norm_num
  rw [hbound] at hle
  have hroom : (sweep ((Service.new defaultEnrollLimit).after a es).nonces now).entries.length ≤
      600 := by
    exact_mod_cast hle
  simp only [Authority.nonce]
  rw [if_neg (by rw [maxOutstandingNonces]; omega)]

/-- The rate limit and what it means for the nonce table. In any sequence of calls, the calls of any
contiguous run that are mapped to a bucket, none of them at the zero time, are admitted at most as
often as its cap and what it earns from the first to the latest of them allow; a refused call spends
nothing. Behind the handlers no more than the global cap and what the global bucket earns in
`nonceTTL` are outstanding at any time, and with the default budget `Nonce` never finds the table
full. -/
theorem enrollment_bounds :
    (∀ (el : EnrollLimit) (before calls : List Call) (o : Lane) (first : Call) (latest : ℤ),
      first ∈ (calls.filter o.takes).head? → (∀ c ∈ calls.filter o.takes, c.now ≤ latest) →
      (∀ c ∈ calls.filter o.takes, c.now ≠ 0) →
      (((newLimiter el).after before).admitted o calls : ℚ) ≤
        el.orDefault.burst o + el.orDefault.perMin o / 60 * seconds (latest - first.now)) ∧
    (∀ (el : EnrollLimit) (before : List Call) (c : Call) (o : Lane),
      let l := (newLimiter el).after before
      (l.allow c.client c.now).1 = false →
      (l.allow c.client c.now).2.lane o =
          (if o.takes c then l.topUp o (l.lane o) c.now else l.lane o) ∧
        (l.lane o).tokens ≤ ((l.allow c.client c.now).2.lane o).tokens) ∧
    ∀ (caPriv kid : Bytes) (ttl : ℤ) (a : Authority) (es : List (ℤ × Arrival)) (t : ℤ),
      Authority.new caPriv kid ttl = .ok a → (∀ e ∈ es, e.1 ≤ t) → (∀ e ∈ es, e.1 ≠ 0) →
      (∀ el : EnrollLimit, ((sweep ((Service.new el).after a es).nonces t).entries.length : ℚ) ≤
        el.orDefault.globalBurst + el.orDefault.globalPerMin / 60 * seconds a.nonceTTL) ∧
      ∀ n : Bytes, (a.nonce ((Service.new defaultEnrollLimit).after a es).nonces n t).1 = .ok n := by
  refine ⟨fun el before calls o first latest hfirst hlatest hzero => ?_, fun el before c o => ?_,
    fun caPriv kid ttl a es t ha hlatest hzero => ⟨fun el => ?_, fun n => ?_⟩⟩
  · obtain ⟨hsound, hfigures⟩ := (sound_newLimiter el).after before
    have hle := hsound.admitted_le hfirst hlatest hzero
    rwa [(hfigures o).1, (hfigures o).2, burst_newLimiter, rate_newLimiter] at hle
  · exact fun h => ((sound_newLimiter el).after before).1.refused h o
  · exact unexpired_le el (by rw [nonceTTL_of_new ha]; decide) hlatest hzero
  · exact nonce_eq_ok (nonceTTL_of_new ha) hlatest hzero n

/-- Two calls within the default budget, and a nonce after a first one. -/
theorem enrollment_bounds_two_calls :
    let a : Authority := ⟨List.replicate 64 0, [], defaultTTL, nonceTTL⟩
    ((newLimiter defaultEnrollLimit).admitted none [⟨[1], 1⟩, ⟨[2], 61⟩] : ℚ) ≤
        200 + 200 / 60 * seconds (61 - 1) ∧
      (a.nonce ((Service.new defaultEnrollLimit).after a [(1, .nonce methodPost [1] [7])]).nonces
        [8] 61).1 = .ok [8] := by
  obtain ⟨hadmitted, -, hnonces⟩ := enrollment_bounds
  refine ⟨hadmitted defaultEnrollLimit [] [⟨[1], 1⟩, ⟨[2], 61⟩] none ⟨[1], 1⟩ 61 rfl (by decide)
    (by decide), ?_⟩
  exact (hnonces (List.replicate 64 0) [] 0 _ _ 61 rfl (by simp) (by simp)).2 [8]

/-- At the zero time a bucket is full again at every call. -/
theorem admitted_at_zero_time :
    ¬((newLimiter ⟨1, 1, 1, 1⟩).admitted none [⟨[1], 0⟩, ⟨[1], 0⟩] : ℚ) ≤
      1 + 1 / 60 * seconds (0 - 0) := by
  decide +kernel

end Sanad.Workload
