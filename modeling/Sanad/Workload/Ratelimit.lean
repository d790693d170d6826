import Mathlib.Data.Rat.Floor
import Sanad.Common.Bytes
import Sanad.Common.TokenBucket
import Sanad.Types

/-! # The enrollment rate limit

`workload/ratelimit.go`: a bucket for all clients and a table of buckets into which clients are
hashed. Tokens are exact rationals where the source has `float64`.

A call tops up and asks two buckets, and spends in both or in neither. Each bucket on its own is a
token bucket of the library, except that the zero time in `last` marks a bucket never used: it is full
at its next call, whenever that is.
-/

namespace Sanad.Workload

open TokenBucket (Bucket request refill)

/-- `DefaultClientBurst` -/
def defaultClientBurst : ℤ := 20

/-- `DefaultClientPerMin` -/
def defaultClientPerMin : ℤ := 20

/-- `DefaultGlobalBurst` -/
def defaultGlobalBurst : ℤ := 200

/-- `DefaultGlobalPerMin` -/
def defaultGlobalPerMin : ℤ := 200

/-- `limiterBuckets` -/
def limiterBuckets : ℕ := 1024

instance : NeZero limiterBuckets := ⟨by decide⟩

/-- `EnrollLimit` -/
structure EnrollLimit where
  clientBurst : ℤ
  clientPerMin : ℤ
  globalBurst : ℤ
  globalPerMin : ℤ
  deriving DecidableEq, Repr

/-- `DefaultEnrollLimit` -/
def defaultEnrollLimit : EnrollLimit :=
  ⟨defaultClientBurst, defaultClientPerMin, defaultGlobalBurst, defaultGlobalPerMin⟩

/-- The budget with the defaults for its non-positive fields. -/
def EnrollLimit.orDefault (el : EnrollLimit) : EnrollLimit where
  clientBurst := if el.clientBurst ≤ 0 then defaultEnrollLimit.clientBurst else el.clientBurst
  clientPerMin := if el.clientPerMin ≤ 0 then defaultEnrollLimit.clientPerMin else el.clientPerMin
  globalBurst := if el.globalBurst ≤ 0 then defaultEnrollLimit.globalBurst else el.globalBurst
  globalPerMin := if el.globalPerMin ≤ 0 then defaultEnrollLimit.globalPerMin else el.globalPerMin

/-- `Duration.Seconds` -/
def seconds (d : ℤ) : ℚ := d / Time.second

/-- `bucket.take`: whether the bucket holds a whole token, once it is topped up. -/
def take (b : Bucket ℚ ℤ) (now : ℤ) (rate burst : ℚ) : Bool × Bucket ℚ ℤ :=
  let b :=
    if b.last = 0 then ⟨burst, now⟩
    else if b.last < now then
      ⟨min burst (b.tokens + seconds (Time.sub now b.last) * rate), now⟩
    else b
  (1 ≤ b.tokens, b)

/-- `Limiter` -/
structure Limiter where
  buckets : Fin limiterBuckets → Bucket ℚ ℤ
  global : Bucket ℚ ℤ
  clientRate : ℚ
  clientBurst : ℚ
  globalRate : ℚ
  globalBurst : ℚ
  retryAfter : ℤ

/-- `NewLimiter`, and `SetLimit`, which sets every field of the limiter. -/
def newLimiter (el : EnrollLimit) : Limiter :=
  let el := el.orDefault
  { buckets := fun _ => ⟨0, 0⟩
    global := ⟨0, 0⟩
    clientRate := el.clientPerMin / 60
    clientBurst := el.clientBurst
    globalRate := el.globalPerMin / 60
    globalBurst := el.globalBurst
    retryAfter := ⌈60 / min (el.clientPerMin : ℚ) el.globalPerMin⌉ * Time.second }

/-- FNV-1a with 32 bits. -/
def fnv32a (b : Bytes) : UInt32 :=
  b.foldl (fun h c => (h ^^^ c.toUInt32) * 16777619) 2166136261

/-- `bucketIndex` -/
def bucketIndex (client : Bytes) : Fin limiterBuckets :=
  Fin.ofNat limiterBuckets (fnv32a client).toNat

/-- `Allow` -/
def Limiter.allow (l : Limiter) (client : Bytes) (now : ℤ) : Bool × Limiter :=
  let i := bucketIndex client
  let (okClient, b) := take (l.buckets i) now l.clientRate l.clientBurst
  let (okGlobal, g) := take l.global now l.globalRate l.globalBurst
  if !okClient || !okGlobal then
    (false, { l with buckets := Function.update l.buckets i b, global := g })
  else
    (true, { l with
      buckets := Function.update l.buckets i { b with tokens := b.tokens - 1 }
      global := { g with tokens := g.tokens - 1 } })

/-! ## Calls -/

/-- A call of `Allow`. -/
structure Call where
  client : Bytes
  now : ℤ
  deriving DecidableEq, Repr

/-- The limiter after a sequence of calls. -/
def Limiter.after (l : Limiter) (cs : List Call) : Limiter :=
  cs.foldl (fun l c => (l.allow c.client c.now).2) l

/-- The calls of a sequence with their answers. -/
def Limiter.log (l : Limiter) : List Call → List (Call × Bool)
  | [] => []
  | c :: cs => (c, (l.allow c.client c.now).1) :: (l.allow c.client c.now).2.log cs

/-- The buckets of a limiter: the global one, or one of the table. -/
abbrev Lane := Option (Fin limiterBuckets)

/-- Whether a call is mapped to a bucket. -/
def Lane.takes : Lane → Call → Bool
  | none, _ => true
  | some i, c => bucketIndex c.client = i

/-- The bucket of a lane. -/
def Limiter.lane (l : Limiter) : Lane → Bucket ℚ ℤ
  | none => l.global
  | some i => l.buckets i

/-- The tokens a lane earns in a second. -/
def Limiter.rate (l : Limiter) : Lane → ℚ
  | none => l.globalRate
  | some _ => l.clientRate

/-- The cap of a lane. -/
def Limiter.burst (l : Limiter) : Lane → ℚ
  | none => l.globalBurst
  | some _ => l.clientBurst

/-- The cap that a budget sets for a lane. -/
def EnrollLimit.burst (el : EnrollLimit) : Lane → ℤ
  | none => el.globalBurst
  | some _ => el.clientBurst

/-- The tokens per minute that a budget sets for a lane. -/
def EnrollLimit.perMin (el : EnrollLimit) : Lane → ℤ
  | none => el.globalPerMin
  | some _ => el.clientPerMin

theorem burst_newLimiter (el : EnrollLimit) (o : Lane) :
    (newLimiter el).burst o = el.orDefault.burst o := by
  cases o <;> rfl

theorem rate_newLimiter (el : EnrollLimit) (o : Lane) :
    (newLimiter el).rate o = el.orDefault.perMin o / 60 := by
  cases o <;> rfl

/-- How many calls of a sequence are mapped to a lane and admitted. -/
def Limiter.admitted (l : Limiter) (o : Lane) (cs : List Call) : ℕ :=
  (l.log cs).countP fun e => o.takes e.1 && e.2

/-! ## One call -/

/-- How a lane tops its bucket up. -/
def Limiter.topUp (l : Limiter) (o : Lane) (b : Bucket ℚ ℤ) (now : ℤ) : Bucket ℚ ℤ :=
  (take b now (l.rate o) (l.burst o)).2

/-- The limiter with both buckets of a call topped up, and `spend` tokens taken from each. -/
def Limiter.refilled (l : Limiter) (c : Call) (spend : ℚ) : Limiter :=
  let i := bucketIndex c.client
  let b := l.topUp (some i) (l.buckets i) c.now
  let g := l.topUp none l.global c.now
  { l with
    buckets := Function.update l.buckets i { b with tokens := b.tokens - spend }
    global := { g with tokens := g.tokens - spend } }

/-- `Allow`, by what the two buckets hold. -/
theorem allow_eq (l : Limiter) (c : Call) :
    l.allow c.client c.now =
      if 1 ≤ (l.topUp (some (bucketIndex c.client))
            (l.buckets (bucketIndex c.client)) c.now).tokens ∧
          1 ≤ (l.topUp none l.global c.now).tokens then
        (true, l.refilled c 1)
      else (false, l.refilled c 0) := by
  have hok : ∀ b now rate burst,
      (take b now rate burst).1 = decide (1 ≤ (take b now rate burst).2.tokens) :=
    fun _ _ _ _ => rfl
  simp only [Limiter.allow, Limiter.refilled, Limiter.topUp, Limiter.rate, Limiter.burst, sub_zero]
  by_cases hclient :
      1 ≤ (take (l.buckets (bucketIndex c.client)) c.now l.clientRate l.clientBurst).2.tokens <;>
    by_cases hglobal : 1 ≤ (take l.global c.now l.globalRate l.globalBurst).2.tokens <;>
    simp [hok, hclient, hglobal]

@[simp]
theorem rate_refilled (l : Limiter) (c : Call) (spend : ℚ) (o : Lane) :
    (l.refilled c spend).rate o = l.rate o := by
  cases o <;> rfl

@[simp]
theorem burst_refilled (l : Limiter) (c : Call) (spend : ℚ) (o : Lane) :
    (l.refilled c spend).burst o = l.burst o := by
  cases o <;> rfl

/-- The lanes a call is mapped to are topped up and spent from. -/
theorem lane_refilled {l : Limiter} {c : Call} {o : Lane} (h : o.takes c = true) (spend : ℚ) :
    (l.refilled c spend).lane o =
      ⟨(l.topUp o (l.lane o) c.now).tokens - spend, (l.topUp o (l.lane o) c.now).last⟩ := by
  cases o with
  | none => rfl
  | some i =>
      obtain rfl : bucketIndex c.client = i := of_decide_eq_true h
      simp [Limiter.refilled, Limiter.lane]

/-- The other lanes stay as they are. -/
theorem lane_refilled_of_not_takes {l : Limiter} {c : Call} {o : Lane} (h : o.takes c = false)
    (spend : ℚ) : (l.refilled c spend).lane o = l.lane o := by
  cases o with
  | none => cases h
  | some i => exact Function.update_of_ne (fun hi => of_decide_eq_false h hi.symm) _ _

/-- What a call can do: it is admitted and spends in both buckets, which hold a token each, or it
only tops them up. -/
theorem allow_cases (l : Limiter) (c : Call) :
    (l.allow c.client c.now = (true, l.refilled c 1) ∧
      ∀ o : Lane, o.takes c = true → 1 ≤ (l.topUp o (l.lane o) c.now).tokens) ∨
    l.allow c.client c.now = (false, l.refilled c 0) := by
  rw [allow_eq]
  split
  · next h =>
      refine .inl ⟨rfl, fun o ho => ?_⟩
      cases o with
      | none => exact h.2
      | some i =>
          obtain rfl : bucketIndex c.client = i := of_decide_eq_true ho
          exact h.1
  · exact .inr rfl

/-- A call is a request to each of the lanes it is mapped to. -/
theorem request_lane {l : Limiter} {c : Call} {o : Lane} (h : o.takes c = true) :
    request (l.topUp o) (l.lane o) (c.now, (l.allow c.client c.now).1) =
      some ((l.allow c.client c.now).2.lane o) := by
  rw [TokenBucket.request_eq_some_iff]
  obtain ⟨hallow, htokens⟩ | hallow := allow_cases l c
  · rw [hallow]
    exact .inl ⟨rfl, htokens o h, lane_refilled h 1⟩
  · rw [hallow]
    refine .inr ⟨rfl, ?_⟩
    rw [lane_refilled h, sub_zero]

theorem rate_allow (l : Limiter) (c : Call) (o : Lane) :
    (l.allow c.client c.now).2.rate o = l.rate o := by
  obtain ⟨hallow, -⟩ | hallow := allow_cases l c <;> rw [hallow, rate_refilled]

theorem burst_allow (l : Limiter) (c : Call) (o : Lane) :
    (l.allow c.client c.now).2.burst o = l.burst o := by
  obtain ⟨hallow, -⟩ | hallow := allow_cases l c <;> rw [hallow, burst_refilled]

theorem topUp_allow (l : Limiter) (c : Call) (o : Lane) :
    (l.allow c.client c.now).2.topUp o = l.topUp o := by
  funext b now
  rw [Limiter.topUp, Limiter.topUp, rate_allow, burst_allow]

theorem lane_allow_of_not_takes {l : Limiter} {c : Call} {o : Lane} (h : o.takes c = false) :
    (l.allow c.client c.now).2.lane o = l.lane o := by
  obtain ⟨hallow, -⟩ | hallow := allow_cases l c <;>
    rw [hallow, lane_refilled_of_not_takes h]

/-! ## Runs of calls, seen from one lane -/

/-- The requests that a sequence of calls makes to a lane. -/
def Limiter.requests (l : Limiter) (o : Lane) (cs : List Call) : List (ℤ × Bool) :=
  ((l.log cs).filter fun e => o.takes e.1).map fun e => (e.1.now, e.2)

/-- A sequence of calls is, for each lane, a run of its bucket. -/
theorem run_requests (l : Limiter) (o : Lane) (cs : List Call) :
    Transition.run (request (l.topUp o)) (l.lane o) (l.requests o cs) =
      some ((l.after cs).lane o) := by
  induction cs generalizing l with
  | nil => rfl
  | cons c cs ih =>
      have hrest := ih (l.allow c.client c.now).2
      rw [topUp_allow] at hrest
      cases htakes : o.takes c with
      | true =>
          have hcons : l.requests o (c :: cs) =
              (c.now, (l.allow c.client c.now).1) ::
                (l.allow c.client c.now).2.requests o cs := by
            simp [Limiter.requests, Limiter.log, htakes]
          rw [hcons, Transition.run, request_lane htakes]
          exact hrest
      | false =>
          have hcons : l.requests o (c :: cs) = (l.allow c.client c.now).2.requests o cs := by
            simp [Limiter.requests, Limiter.log, htakes]
          rw [hcons]
          rw [lane_allow_of_not_takes htakes] at hrest
          exact hrest

theorem spent_requests (l : Limiter) (o : Lane) (cs : List Call) :
    TokenBucket.spent (l.requests o cs) = l.admitted o cs := by
  rw [TokenBucket.spent, Limiter.requests, Limiter.admitted, List.countP_map, List.countP_filter]
  exact List.countP_congr fun e _ => by simp [and_comm]

theorem Limiter.after_append (l : Limiter) (cs cs' : List Call) :
    l.after (cs ++ cs') = (l.after cs).after cs' := List.foldl_append

theorem Limiter.log_append (l : Limiter) (cs cs' : List Call) :
    l.log (cs ++ cs') = l.log cs ++ (l.after cs).log cs' := by
  induction cs generalizing l with
  | nil => rfl
  | cons c cs ih =>
      rw [List.cons_append, Limiter.log, Limiter.log, ih]
      rfl

theorem map_fst_log (l : Limiter) (cs : List Call) : (l.log cs).map Prod.fst = cs := by
  induction cs generalizing l with
  | nil => rfl
  | cons c cs ih => rw [Limiter.log, List.map_cons, ih]

/-- The instants of the requests are those of the calls. -/
theorem map_fst_requests (l : Limiter) (o : Lane) (cs : List Call) :
    (l.requests o cs).map Prod.fst = (cs.filter o.takes).map Call.now := by
  rw [Limiter.requests, List.map_map]
  conv_rhs => rw [← map_fst_log l cs, List.filter_map, List.map_map]
  rfl

theorem exists_call_of_mem_requests {l : Limiter} {o : Lane} {cs : List Call} {r : ℤ × Bool}
    (h : r ∈ l.requests o cs) : ∃ c ∈ cs.filter o.takes, c.now = r.1 := by
  have hmem := List.mem_map_of_mem (f := Prod.fst) h
  rw [map_fst_requests] at hmem
  exact List.mem_map.mp hmem

/-- The first request to a lane is made by the first call that is mapped to it. -/
theorem requests_eq_cons (l : Limiter) {o : Lane} {cs rest : List Call} {first : Call}
    (h : cs.filter o.takes = first :: rest) :
    ∃ spend rs, l.requests o cs = (first.now, spend) :: rs := by
  have hfst := map_fst_requests l o cs
  rw [h, List.map_cons, List.map_eq_cons_iff] at hfst
  obtain ⟨⟨now, spend⟩, rs, hrs, rfl, -⟩ := hfst
  exact ⟨spend, rs, hrs⟩

/-! ## A lane is a token bucket -/

/-- What a lane earns between two instants. -/
def earned (rate : ℚ) (s t : ℤ) : ℚ := seconds (Time.sub t s) * rate

/-- What time is worth, in tokens. -/
def worth (rate : ℚ) (t : ℤ) : ℚ := seconds t * rate

theorem seconds_le_seconds {d e : ℤ} (h : d ≤ e) : seconds d ≤ seconds e := by
  rw [seconds, seconds, Time.second]
  have : (d : ℚ) ≤ e := by exact_mod_cast h
  gcongr

theorem seconds_sub (d e : ℤ) : seconds (d - e) = seconds d - seconds e := by
  rw [seconds, seconds, seconds, Int.cast_sub, sub_div]

theorem earns {rate : ℚ} (h : 0 ≤ rate) : TokenBucket.Earns (earned rate) (worth rate) where
  monotone _ _ hle := mul_le_mul_of_nonneg_right (seconds_le_seconds hle) h
  nonneg s t hlt := by
    have hsub : 0 ≤ Time.sub t s := by
      rw [Time.sub, Time.maxDuration]
      omega
    exact mul_nonneg (by simpa [seconds] using seconds_le_seconds hsub) h
  le s t hlt := by
    -- the difference saturates, which only earns less
    have hsub : Time.sub t s ≤ t - s := by
      rw [Time.sub, Time.maxDuration]
      omega
    rw [worth, worth, ← sub_mul, ← seconds_sub]
    exact mul_le_mul_of_nonneg_right (seconds_le_seconds hsub) h

theorem topUp_of_last_eq_zero {l : Limiter} {o : Lane} {b : Bucket ℚ ℤ} (h : b.last = 0) (now : ℤ) :
    l.topUp o b now = ⟨l.burst o, now⟩ := by
  simp [Limiter.topUp, take, h]

/-- A bucket that has been used before is topped up as a token bucket. -/
theorem topUp_of_last_ne_zero {l : Limiter} {o : Lane} {b : Bucket ℚ ℤ} (h : b.last ≠ 0) (now : ℤ) :
    l.topUp o b now = refill (l.burst o) (earned (l.rate o)) b now := by
  simp [Limiter.topUp, take, h, refill, earned]

/-- Away from the zero time, a top-up leaves a bucket in use. -/
theorem topUp_last_ne_zero {l : Limiter} {o : Lane} {b : Bucket ℚ ℤ} {now : ℤ} (hnow : now ≠ 0) :
    (l.topUp o b now).last ≠ 0 ∧ now ≤ (l.topUp o b now).last := by
  by_cases h : b.last = 0
  · rw [topUp_of_last_eq_zero h]
    exact ⟨hnow, le_rfl⟩
  · rw [topUp_of_last_ne_zero h, TokenBucket.refill_last]
    exact ⟨by omega, le_max_right _ _⟩

/-- A bucket that was topped up at an instant is not topped up again at that instant. -/
theorem topUp_topUp {l : Limiter} {o : Lane} {b : Bucket ℚ ℤ} {now : ℤ} (hnow : now ≠ 0) :
    l.topUp o (l.topUp o b now) now = l.topUp o b now := by
  obtain ⟨hne, hle⟩ := topUp_last_ne_zero (l := l) (o := o) (b := b) hnow
  rw [topUp_of_last_ne_zero hne, TokenBucket.refill_of_le hle]

/-! ## What every call keeps -/

/-- The figures of a limiter are positive, and every bucket holds between no tokens and its cap. -/
structure Limiter.Sound (l : Limiter) : Prop where
  rate_nonneg : ∀ o, 0 ≤ l.rate o
  burst_nonneg : ∀ o, 0 ≤ l.burst o
  tokens_nonneg : ∀ o, 0 ≤ (l.lane o).tokens
  tokens_le : ∀ o, (l.lane o).tokens ≤ l.burst o

theorem EnrollLimit.orDefault_pos (el : EnrollLimit) (o : Lane) :
    0 < el.orDefault.burst o ∧ 0 < el.orDefault.perMin o := by
  have h : ∀ {d : ℤ}, 0 < d → ∀ z : ℤ, 0 < if z ≤ 0 then d else z := by
    intro d hd z
    split <;> omega
  cases o with
  | none => exact ⟨h (by decide) _, h (by decide) _⟩
  | some i => exact ⟨h (by decide) _, h (by decide) _⟩

theorem sound_newLimiter (el : EnrollLimit) : (newLimiter el).Sound := by
  have hcast : ∀ {z : ℤ}, 0 < z → (0 : ℚ) ≤ z := fun h => by exact_mod_cast h.le
  have hburst : ∀ o, 0 ≤ (newLimiter el).burst o := by
    intro o
    rw [burst_newLimiter]
    exact hcast (el.orDefault_pos o).1
  refine ⟨fun o => ?_, hburst, fun o => ?_, fun o => ?_⟩
  · rw [rate_newLimiter]
    exact div_nonneg (hcast (el.orDefault_pos o).2) (by norm_num)
  · cases o <;> exact le_rfl
  · refine le_of_eq_of_le ?_ (hburst o)
    cases o <;> rfl

namespace Limiter.Sound

variable {l : Limiter}

theorem topUp_nonneg (hl : l.Sound) (o : Lane) (now : ℤ) :
    0 ≤ (l.topUp o (l.lane o) now).tokens := by
  by_cases h : (l.lane o).last = 0
  · rw [topUp_of_last_eq_zero h]
    exact hl.burst_nonneg o
  · rw [topUp_of_last_ne_zero h]
    exact (earns (hl.rate_nonneg o)).refill_nonneg (hl.burst_nonneg o) (hl.tokens_nonneg o) now

theorem topUp_le (hl : l.Sound) (o : Lane) (now : ℤ) :
    (l.topUp o (l.lane o) now).tokens ≤ l.burst o := by
  by_cases h : (l.lane o).last = 0
  · rw [topUp_of_last_eq_zero h]
  · rw [topUp_of_last_ne_zero h, refill]
    split
    · exact min_le_left _ _
    · exact hl.tokens_le o

/-- Topping up never takes tokens away. -/
theorem le_topUp (hl : l.Sound) (o : Lane) (now : ℤ) :
    (l.lane o).tokens ≤ (l.topUp o (l.lane o) now).tokens := by
  by_cases h : (l.lane o).last = 0
  · rw [topUp_of_last_eq_zero h]
    exact hl.tokens_le o
  · rw [topUp_of_last_ne_zero h, refill]
    split
    · next hlt =>
        refine le_min (hl.tokens_le o) ?_
        have := (earns (hl.rate_nonneg o)).nonneg _ _ hlt
        linarith
    · exact le_rfl

/-- A call keeps the limiter sound. -/
theorem allow (hl : l.Sound) (c : Call) : (l.allow c.client c.now).2.Sound := by
  have hlane : ∀ o, 0 ≤ ((l.allow c.client c.now).2.lane o).tokens ∧
      ((l.allow c.client c.now).2.lane o).tokens ≤ l.burst o := by
    intro o
    cases htakes : o.takes c with
    | false =>
        rw [lane_allow_of_not_takes htakes]
        exact ⟨hl.tokens_nonneg o, hl.tokens_le o⟩
    | true =>
        have hle := hl.topUp_le o c.now
        have hrequest := request_lane (l := l) htakes
        obtain ⟨-, hone, hb⟩ | ⟨-, hb⟩ := TokenBucket.request_eq_some_iff.mp hrequest
        · rw [hb]
          exact ⟨sub_nonneg.mpr hone, by dsimp only; linarith⟩
        · rw [hb]
          exact ⟨hl.topUp_nonneg o c.now, hle⟩
  refine ⟨fun o => ?_, fun o => ?_, fun o => (hlane o).1, fun o => ?_⟩
  · rw [rate_allow]
    exact hl.rate_nonneg o
  · rw [burst_allow]
    exact hl.burst_nonneg o
  · rw [burst_allow]
    exact (hlane o).2

end Limiter.Sound

/-- Calls keep the figures of a limiter, and keep it sound. -/
theorem Limiter.Sound.after {l : Limiter} (hl : l.Sound) (cs : List Call) :
    (l.after cs).Sound ∧
      ∀ o, (l.after cs).rate o = l.rate o ∧ (l.after cs).burst o = l.burst o := by
  induction cs generalizing l with
  | nil => exact ⟨hl, fun o => ⟨rfl, rfl⟩⟩
  | cons c cs ih =>
      obtain ⟨hsound, hfigures⟩ := ih (hl.allow c)
      refine ⟨hsound, fun o => ?_⟩
      rw [← rate_allow l c o, ← burst_allow l c o]
      exact hfigures o

/-! ## The bound -/

/-- The first request of a run away from the zero time starts a token bucket. -/
theorem run_topUp {l : Limiter} {o : Lane} {b : Bucket ℚ ℤ} {now : ℤ} {spend : Bool}
    {cs : List (ℤ × Bool)} (hzero : ∀ c ∈ (now, spend) :: cs, c.1 ≠ 0) :
    Transition.run (request (l.topUp o)) b ((now, spend) :: cs) =
      Transition.run (request (refill (l.burst o) (earned (l.rate o)))) (l.topUp o b now)
        ((now, spend) :: cs) := by
  have hnow : now ≠ 0 := hzero _ List.mem_cons_self
  have hfirst : request (l.topUp o) b (now, spend) =
      request (l.topUp o) (l.topUp o b now) (now, spend) := by
    rw [request, request, topUp_topUp hnow]
  rw [Transition.run, hfirst, ← Transition.run]
  refine TokenBucket.run_congr (fun b => b.last ≠ 0) (fun b hb c _ => topUp_of_last_ne_zero hb c.1)
    (fun b b' _ c hc hrequest => ?_) (topUp_last_ne_zero hnow).1
  rw [TokenBucket.request_last hrequest]
  exact (topUp_last_ne_zero (hzero c hc)).1

/-- The rate limit of a lane, over any calls of which none reaches it at the zero time. -/
theorem Limiter.Sound.admitted_le {l : Limiter} (hl : l.Sound) {o : Lane} {cs : List Call}
    {first : Call} (hfirst : first ∈ (cs.filter o.takes).head?) {latest : ℤ}
    (hlatest : ∀ c ∈ cs.filter o.takes, c.now ≤ latest)
    (hzero : ∀ c ∈ cs.filter o.takes, c.now ≠ 0) :
    (l.admitted o cs : ℚ) ≤ l.burst o + l.rate o * seconds (latest - first.now) := by
  obtain ⟨rest, hrest⟩ := List.head?_eq_some_iff.mp hfirst
  have hmem : first ∈ cs.filter o.takes := hrest ▸ List.mem_cons_self
  obtain ⟨spend, rs, hrs⟩ := requests_eq_cons l hrest
  have hcall : ∀ r ∈ (first.now, spend) :: rs, ∃ c ∈ cs.filter o.takes, c.now = r.1 :=
    fun r hr => exists_call_of_mem_requests (l := l) (hrs ▸ hr)
  have hrun := run_requests l o cs
  rw [hrs, run_topUp fun r hr => by
    obtain ⟨c, hc, hnow⟩ := hcall r hr
    exact hnow ▸ hzero c hc] at hrun
  have hle := (earns (hl.rate_nonneg o)).spent_le (hl.burst_nonneg o) hrun
    (hl.topUp_nonneg o first.now) (hl.topUp_le o first.now)
    (topUp_last_ne_zero (hzero first hmem)).2 (hlatest first hmem) fun r hr => by
      obtain ⟨c, hc, hnow⟩ := hcall r hr
      exact hnow ▸ hlatest c hc
  rw [worth, worth, ← sub_mul, ← seconds_sub, mul_comm] at hle
  rw [← spent_requests, hrs]
  exact hle

/-- A refused call tops its two buckets up and spends from none, so that every bucket is left with
at least the tokens it had. -/
theorem Limiter.Sound.refused {l : Limiter} (hl : l.Sound) {c : Call}
    (h : (l.allow c.client c.now).1 = false) (o : Lane) :
    (l.allow c.client c.now).2.lane o =
        (if o.takes c then l.topUp o (l.lane o) c.now else l.lane o) ∧
      (l.lane o).tokens ≤ ((l.allow c.client c.now).2.lane o).tokens := by
  cases htakes : o.takes c with
  | false =>
      rw [lane_allow_of_not_takes htakes]
      exact ⟨rfl, le_rfl⟩
  | true =>
      have hrequest := request_lane (l := l) htakes
      rw [h] at hrequest
      obtain ⟨hspend, -, -⟩ | ⟨-, hb⟩ := TokenBucket.request_eq_some_iff.mp hrequest
      · cases hspend
      · rw [hb]
        exact ⟨rfl, hl.le_topUp o c.now⟩

end Sanad.Workload
