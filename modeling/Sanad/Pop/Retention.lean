import Sanad.Pop.Replay

/-! # How long the cache keeps a proof id

`internal/pop`: the replay cache under any sequence of uses whose times do not decrease. The entries
carry no times. A generation is turned over by the first use that comes a window after it started, and
the next one starts with that use, however late it is; so an entry that came early in its generation is
kept for up to three windows, not two.
-/

namespace Sanad.Pop

/-- A call of `ReplayCache.Use`. -/
structure Use where
  jti : Bytes
  now : ℤ
  deriving DecidableEq, Repr

/-- A cache after a sequence of uses. -/
def ReplayCache.after (c : ReplayCache) (uses : List Use) : ReplayCache :=
  uses.foldl (fun c u => (c.use u.jti u.now).1) c

/-- The uses that are accepted. -/
def ReplayCache.accepted : ReplayCache → List Use → List Use
  | _, [] => []
  | c, u :: uses =>
    (if (c.use u.jti u.now).2 = .ok () then [u] else []) ++
      ReplayCache.accepted (c.use u.jti u.now).1 uses

/-- The cache holds an id. -/
def ReplayCache.Remembers (c : ReplayCache) (jti : Bytes) : Prop := jti ∈ c.cur ∨ jti ∈ c.prev

/-- `ReplayCache.Len` -/
def ReplayCache.len (c : ReplayCache) : ℕ := c.cur.length + c.prev.length

/-- An id is kept for at least a window and at most `n` windows, the cache does not outgrow its limit,
and a use that is refused adds nothing. -/
structure Retains (c : ReplayCache) (n : ℤ) (uses : List Use) : Prop where
  atLeast : ∀ before u later, uses = before ++ u :: later →
    ∀ t, ⟨u.jti, t⟩ ∈ c.accepted before → u.now ≤ t + c.window →
      ((c.after before).use u.jti u.now).2 = .error .replayed
  atMost : ∀ before u later, uses = before ++ u :: later →
    ∀ jti, ((c.after before).rotate u.now).Remembers jti →
      ∃ t, ⟨jti, t⟩ ∈ c.accepted before ∧ u.now ≤ t + n * c.window
  bounded : ∀ before later, uses = before ++ later → (c.after before).len ≤ c.max
  refused : ∀ before u later, uses = before ++ u :: later →
    ((c.after before).use u.jti u.now).2 ≠ .ok () →
      ∀ jti, ((c.after before).use u.jti u.now).1.Remembers jti → (c.after before).Remembers jti

/-- No use comes more than two windows after a turnover, `before`, and less than a window after the next
one, `last`, if that one came in time for the entries in between to be kept. The turnovers follow from
the times alone: the first use, and then each first one that comes a window after the last turnover. -/
def OnTime (window : ℤ) : ℤ → ℤ → List ℤ → Prop
  | _, _, [] => True
  | before, last, now :: times =>
    if last = 0 then OnTime window (now - 2 * window) now times
    else if now < last + window then
      (last < before + 2 * window → now ≤ before + 2 * window) ∧ OnTime window before last times
    else OnTime window last now times

instance OnTime.decidable (window : ℤ) :
    ∀ before last times, Decidable (OnTime window before last times)
  | _, _, [] => .isTrue trivial
  | before, last, now :: times =>
    have := OnTime.decidable window before last times
    have := OnTime.decidable window last now times
    have := OnTime.decidable window (now - 2 * window) now times
    inferInstanceAs (Decidable (if last = 0 then _ else if now < last + window then _ ∧ _ else _))

/-! ## Size -/

section

variable {c : ReplayCache} {jti : Bytes} {now : ℤ}

theorem max_rotate : (c.rotate now).max = c.max := by
  rw [ReplayCache.rotate]
  dsimp only
  split_ifs <;> rfl

theorem len_rotate_le : (c.rotate now).len ≤ c.len := by
  rw [ReplayCache.rotate]
  dsimp only
  split_ifs <;> simp [ReplayCache.len]

theorem remembers_of_rotate (h : (c.rotate now).Remembers jti) : c.Remembers jti := by
  rw [ReplayCache.rotate] at h
  dsimp only at h
  split_ifs at h
  · exact h
  · exact h
  · simp [ReplayCache.Remembers] at h
  · exact .inl (by simpa [ReplayCache.Remembers] using h)

theorem bounded_use (jti : Bytes) (now : ℤ) (h : c.len ≤ c.max) :
    (c.use jti now).1.len ≤ c.max ∧ (c.use jti now).1.max = c.max := by
  have hlen : (c.rotate now).len ≤ c.len := len_rotate_le
  have hmax : (c.rotate now).max = c.max := max_rotate
  rcases use_cases (c := c) jti now with ⟨⟨-, -, hroom⟩, heq⟩ | ⟨e, heq⟩ <;> rw [heq]
  · refine ⟨?_, hmax⟩
    simp only [ReplayCache.len, List.length_cons]
    omega
  · exact ⟨(Int.ofNat_le.mpr hlen).trans h, hmax⟩

theorem bounded_after (uses : List Use) (h : c.len ≤ c.max) : (c.after uses).len ≤ c.max := by
  induction uses generalizing c with
  | nil => exact h
  | cons u uses ih =>
      obtain ⟨hlen, hmax⟩ := bounded_use u.jti u.now h
      rw [← hmax] at hlen ⊢
      exact ih hlen

theorem use_of_remembers (h : (c.rotate now).Remembers jti) :
    c.use jti now = (c.rotate now, .error .replayed) := by
  rw [ReplayCache.use]
  split
  · rfl
  · next hcur => rw [if_pos (h.resolve_left hcur)]

theorem remembers_of_refused (h : (c.use jti now).2 ≠ .ok ()) {jti' : Bytes}
    (hmem : (c.use jti now).1.Remembers jti') : c.Remembers jti' := by
  rcases use_cases (c := c) jti now with ⟨-, heq⟩ | ⟨e, heq⟩
  · rw [heq] at h
    exact absurd rfl h
  · rw [heq] at hmem
    exact remembers_of_rotate hmem

end

/-! ## Ages -/

/-- What the cache owes to the uses that were accepted, with the time of the last turnover but one:
every accepted id is covered, and an entry is no older than its generation. -/
structure Aged (c : ReplayCache) (accepted : List Use) (before : ℤ) : Prop where
  sized : c.Sized
  fresh : c.rotated = 0 → accepted = [] ∧ c.cur = [] ∧ c.prev = []
  covers : ∀ u ∈ accepted, c.Covers u.jti u.now
  cur : ∀ jti ∈ c.cur, ∃ t, ⟨jti, t⟩ ∈ accepted ∧ c.rotated ≤ t
  prev : ∀ jti ∈ c.prev, c.rotated < before + 2 * c.window ∧ ∃ t, ⟨jti, t⟩ ∈ accepted ∧ before ≤ t

section

variable {c : ReplayCache} {accepted : List Use} {before now : ℤ} {jti : Bytes}

/-- A turnover of the generations, or none. -/
theorem Aged.rotate (h : Aged c accepted before) (hnow : c.rotated ≠ 0 → c.rotated ≤ now)
    (hzero : now ≠ 0) :
    ∃ before', Aged (c.rotate now) accepted before' ∧ (c.rotate now).rotated ≠ 0 ∧
      ∀ times, OnTime c.window before c.rotated (now :: times) →
        OnTime c.window before' (c.rotate now).rotated times ∧
        ((c.rotate now).rotated < before' + 2 * c.window → now ≤ before' + 2 * c.window) := by
  have hsized : (c.rotate now).Sized := by
    have hwindow := window_rotate h.sized now
    exact ⟨by rw [hwindow]; exact h.sized.pos, by rw [hwindow]; exact h.sized.double⟩
  have hcovers : ∀ u ∈ accepted, (c.rotate now).Covers u.jti u.now := by
    intro u hu
    have hne : c.rotated ≠ 0 := by
      intro h0
      rw [(h.fresh h0).1] at hu
      cases hu
    exact (h.covers u hu).rotate h.sized (hnow hne)
  rcases rotate_cases h.sized now with
    ⟨h0, heq⟩ | ⟨⟨hne, hwithin⟩, heq⟩ | ⟨⟨hne, hone, htwo⟩, heq⟩ | ⟨⟨hne, htwo⟩, heq⟩
  · -- the first use
    obtain ⟨-, hcur, hprev⟩ := h.fresh h0
    rw [heq] at hsized hcovers ⊢
    refine ⟨now - 2 * c.window, ⟨hsized, fun h => absurd h hzero, hcovers, ?_, ?_⟩, hzero, ?_⟩
    · simp [hcur]
    · simp [hprev]
    · intro times htimes
      rw [OnTime, if_pos h0] at htimes
      exact ⟨htimes, fun _ => by omega⟩
  · -- within the window nothing turns over
    rw [heq]
    refine ⟨before, h, hne, ?_⟩
    intro times htimes
    rw [OnTime, if_neg hne, if_pos hwithin] at htimes
    exact ⟨htimes.2, htimes.1⟩
  · -- the current generation becomes the previous one
    rw [heq] at hsized hcovers ⊢
    refine ⟨c.rotated, ⟨hsized, fun h => absurd h hzero, hcovers, by simp, ?_⟩, hzero, ?_⟩
    · exact fun jti hjti => ⟨htwo, h.cur jti hjti⟩
    · intro times htimes
      rw [OnTime, if_neg hne, if_neg (by omega)] at htimes
      exact ⟨htimes, fun _ => by omega⟩
  · -- both generations are dropped
    rw [heq] at hsized hcovers ⊢
    refine ⟨c.rotated, ⟨hsized, fun h => absurd h hzero, hcovers, by simp, by simp⟩, hzero, ?_⟩
    intro times htimes
    have hpos := h.sized.pos
    rw [OnTime, if_neg hne, if_neg (by omega)] at htimes
    exact ⟨htimes, fun h => h.le⟩

theorem Aged.insert (h : Aged c accepted before) (hne : c.rotated ≠ 0) (hle : c.rotated ≤ now)
    (hlt : now < c.rotated + c.window) (jti : Bytes) :
    Aged { c with cur := jti :: c.cur } (accepted ++ [⟨jti, now⟩]) before := by
  refine ⟨⟨h.sized.pos, h.sized.double⟩, fun h0 => absurd h0 hne, ?_, ?_, ?_⟩
  · intro u hu
    rcases List.mem_append.mp hu with hu | hu
    · rcases h.covers u hu with ⟨hmem, hage⟩ | hcovers
      · exact .inl ⟨List.mem_cons_of_mem _ hmem, hage⟩
      · exact .inr hcovers
    · obtain rfl := List.mem_singleton.mp hu
      exact .inl ⟨List.mem_cons_self, hlt⟩
  · intro jti' hjti'
    rcases List.mem_cons.mp hjti' with rfl | hjti'
    · exact ⟨now, by simp, hle⟩
    · obtain ⟨t, ht, hage⟩ := h.cur jti' hjti'
      exact ⟨t, List.mem_append_left _ ht, hage⟩
  · intro jti' hjti'
    obtain ⟨hlast, t, ht, hage⟩ := h.prev jti' hjti'
    exact ⟨hlast, t, List.mem_append_left _ ht, hage⟩

/-- One use. -/
theorem Aged.use (h : Aged c accepted before) (u : Use) (hnow : c.rotated ≠ 0 → c.rotated ≤ u.now)
    (hzero : u.now ≠ 0) :
    ∃ before', Aged (c.use u.jti u.now).1 (accepted ++ c.accepted [u]) before' ∧
      (c.use u.jti u.now).1.rotated ≤ u.now ∧
      ∀ times, OnTime c.window before c.rotated (u.now :: times) →
        OnTime c.window before' (c.use u.jti u.now).1.rotated times := by
  obtain ⟨before', haged, hne, htimes⟩ := h.rotate hnow hzero
  have hle : (c.rotate u.now).rotated ≤ u.now := by
    by_cases h0 : c.rotated = 0
    · rw [ReplayCache.rotate, if_pos h0]
    · exact rotated_rotate_le h.sized (hnow h0)
  refine ⟨before', ?_⟩
  rcases use_cases (c := c) u.jti u.now with ⟨-, heq⟩ | ⟨e, heq⟩
  · simp only [ReplayCache.accepted, heq, if_true, List.append_nil]
    exact ⟨haged.insert hne hle (lt_rotated_rotate h.sized u.now) u.jti, hle,
      fun times ht => (htimes times ht).1⟩
  · simp only [ReplayCache.accepted, heq, reduceCtorEq, if_false, List.append_nil]
    exact ⟨haged, hle, fun times ht => (htimes times ht).1⟩

/-- A sequence of uses. -/
theorem Aged.after {uses rest : List Use} (h : Aged c accepted before)
    (hnow : c.rotated ≠ 0 → ∀ u ∈ uses ++ rest, c.rotated ≤ u.now)
    (hsorted : (uses ++ rest).Pairwise fun u u' => u.now ≤ u'.now)
    (hzero : ∀ u ∈ uses ++ rest, u.now ≠ 0) :
    ∃ before', Aged (c.after uses) (accepted ++ c.accepted uses) before' ∧
      (c.after uses).window = c.window ∧
      ((c.after uses).rotated ≠ 0 → ∀ u ∈ rest, (c.after uses).rotated ≤ u.now) ∧
      (OnTime c.window before c.rotated ((uses ++ rest).map (·.now)) →
        OnTime c.window before' (c.after uses).rotated (rest.map (·.now))) := by
  induction uses generalizing c accepted before with
  | nil => exact ⟨before, by simpa [ReplayCache.accepted, ReplayCache.after] using h, rfl, hnow, id⟩
  | cons u uses ih =>
      rw [List.cons_append] at hnow hsorted hzero
      obtain ⟨hfirst, hrest⟩ := List.pairwise_cons.mp hsorted
      obtain ⟨before₁, haged, hle, htimes⟩ := h.use u (fun h0 => hnow h0 u List.mem_cons_self)
        (hzero u List.mem_cons_self)
      have hwindow := window_use h.sized u.jti u.now
      obtain ⟨before', haged', hwindow', hlater, htimes'⟩ := ih haged
        (fun _ u' hu' => hle.trans (hfirst u' hu')) hrest
        fun u' hu' => hzero u' (List.mem_cons_of_mem _ hu')
      refine ⟨before', ?_, hwindow'.trans hwindow, hlater, ?_⟩
      · rw [List.append_assoc] at haged'
        simpa [ReplayCache.accepted, ReplayCache.after] using haged'
      · intro hon
        rw [hwindow] at htimes'
        exact htimes' (htimes _ hon)

/-- An entry is less than three windows old, and no more than two if the use is on time. -/
theorem Aged.age (h : Aged c accepted before) (hlt : now < c.rotated + c.window)
    (hmem : c.Remembers jti) :
    ∃ t, ⟨jti, t⟩ ∈ accepted ∧ now ≤ t + 3 * c.window ∧
      ((c.rotated < before + 2 * c.window → now ≤ before + 2 * c.window) →
        now ≤ t + 2 * c.window) := by
  have hpos := h.sized.pos
  rcases hmem with hcur | hprev
  · obtain ⟨t, ht, hle⟩ := h.cur jti hcur
    exact ⟨t, ht, by omega, fun _ => by omega⟩
  · obtain ⟨hlast, t, ht, hle⟩ := h.prev jti hprev
    exact ⟨t, ht, by omega, fun hon => by have := hon hlast; omega⟩

/-- An accepted id is remembered for a window. -/
theorem Aged.remembers (h : Aged c accepted before) (hle : c.rotated ≤ now) {t : ℤ}
    (ht : ⟨jti, t⟩ ∈ accepted) (hage : now ≤ t + c.window) : c.Remembers jti := by
  rcases h.covers _ ht with ⟨hmem, -⟩ | ⟨hmem, -⟩ | hold
  · exact .inl hmem
  · exact .inr hmem
  · exact absurd hold (by dsimp only; omega)

end

/-! ## The lifetime of an entry -/

theorem aged_new {window : ℤ} (hwindow : 0 < window) (hdouble : 2 * window ≤ Time.maxDuration)
    (max : ℤ) : Aged (.new window max) [] 0 where
  sized := by
    rw [ReplayCache.new, if_neg (by omega)]
    exact ⟨hwindow, hdouble⟩
  fresh := fun _ => ⟨rfl, rfl, rfl⟩
  covers := by simp
  cur := fun jti hjti => absurd hjti List.not_mem_nil
  prev := fun jti hjti => absurd hjti List.not_mem_nil

/-- The cache at a use, after it has been turned over if it is time. -/
theorem aged_at_use {window max : ℤ} (hwindow : 0 < window)
    (hdouble : 2 * window ≤ Time.maxDuration) {before later : List Use} {u : Use}
    (hsorted : (before ++ u :: later).Pairwise fun u u' => u.now ≤ u'.now)
    (hzero : ∀ u' ∈ before ++ u :: later, u'.now ≠ 0) :
    ∃ b, Aged (((ReplayCache.new window max).after before).rotate u.now)
        ((ReplayCache.new window max).accepted before) b ∧
      (((ReplayCache.new window max).after before).rotate u.now).rotated ≤ u.now ∧
      u.now < (((ReplayCache.new window max).after before).rotate u.now).rotated + window ∧
      (((ReplayCache.new window max).after before).rotate u.now).window = window ∧
      (OnTime window 0 0 ((before ++ u :: later).map (·.now)) →
        (((ReplayCache.new window max).after before).rotate u.now).rotated < b + 2 * window →
          u.now ≤ b + 2 * window) := by
  have hnew : (ReplayCache.new window max).window = window := if_neg (by omega)
  obtain ⟨b₀, haged, hw, hlater, hon⟩ := (aged_new hwindow hdouble max).after (fun h => absurd rfl h)
    hsorted hzero
  rw [hnew] at hw hon
  have hnow := fun h0 => hlater h0 u List.mem_cons_self
  obtain ⟨b, hrotated, -, htimes⟩ := haged.rotate hnow (hzero u (by simp))
  rw [hw] at htimes
  have hlt := lt_rotated_rotate haged.sized u.now
  rw [window_rotate haged.sized, hw] at hlt
  refine ⟨b, hrotated, ?_, hlt, by rw [window_rotate haged.sized, hw], ?_⟩
  · by_cases h0 : ((ReplayCache.new window max).after before).rotated = 0
    · rw [ReplayCache.rotate, if_pos h0]
    · exact rotated_rotate_le haged.sized (hnow h0)
  · exact fun h => (htimes _ (hon h)).2

/-- Any sequence of uses with times that do not decrease, none of which is the zero time: an id is kept
for at least a window and at most three windows; and for at most two, if the uses are on time. -/
theorem retains {window max : ℤ} (hwindow : 0 < window) (hdouble : 2 * window ≤ Time.maxDuration)
    (hmax : 0 < max) {uses : List Use} (hsorted : uses.Pairwise fun u u' => u.now ≤ u'.now)
    (hzero : ∀ u ∈ uses, u.now ≠ 0) :
    Retains (.new window max) 3 uses ∧
      (OnTime window 0 0 (uses.map (·.now)) → Retains (.new window max) 2 uses) := by
  have hnew : (ReplayCache.new window max).window = window := if_neg (by omega)
  have hroom : ((ReplayCache.new window max).len : ℤ) ≤ (ReplayCache.new window max).max := by
    rw [show (ReplayCache.new window max).max = max from if_neg (by omega)]
    exact hmax.le
  -- the two bounds differ in the age of the entries alone
  have key : ∀ n, (∀ before u later, uses = before ++ u :: later → ∀ jti,
      (((ReplayCache.new window max).after before).rotate u.now).Remembers jti →
        ∃ t, ⟨jti, t⟩ ∈ (ReplayCache.new window max).accepted before ∧ u.now ≤ t + n * window) →
      Retains (.new window max) n uses := by
    intro n hatMost
    refine ⟨?_, ?_, ?_, ?_⟩
    · rintro before u later rfl t ht hage
      obtain ⟨b, haged, hle, -, hw, -⟩ := aged_at_use hwindow hdouble hsorted hzero
      rw [hnew] at hage
      rw [use_of_remembers (haged.remembers hle ht (by rwa [hw]))]
    · rw [hnew]
      exact hatMost
    · exact fun before later _ => bounded_after before hroom
    · exact fun before u later _ hrefused jti => remembers_of_refused hrefused
  constructor
  · refine key 3 ?_
    rintro before u later rfl jti hmem
    obtain ⟨b, haged, -, hlt, hw, -⟩ := aged_at_use hwindow hdouble hsorted hzero
    obtain ⟨t, ht, hage, -⟩ := haged.age (by rwa [hw]) hmem
    exact ⟨t, ht, by rwa [hw] at hage⟩
  · intro hon
    refine key 2 ?_
    rintro before u later rfl jti hmem
    obtain ⟨b, haged, -, hlt, hw, hontime⟩ := aged_at_use hwindow hdouble hsorted hzero
    obtain ⟨t, ht, -, hage⟩ := haged.age (by rwa [hw]) hmem
    rw [hw] at hage
    exact ⟨t, ht, hage (hontime hon)⟩

/-- Uses at every half of a window, the turnovers of which come as soon as they can. -/
theorem retains_every_half_window :
    let uses : List Use := [⟨[1], 100⟩, ⟨[2], 105⟩, ⟨[1], 110⟩, ⟨[3], 115⟩, ⟨[1], 120⟩]
    OnTime 10 0 0 (uses.map (·.now)) ∧ Retains (.new 10 4) 2 uses :=
  ⟨by decide, (retains (by decide) (by decide) (by decide) (by decide) (by decide)).2 (by decide)⟩

/-- With a window of ten, an id that is accepted at 100 is still refused at 128, since the use at 119
started the next generation. A window that cannot be doubled is too short: an id is accepted again one
nanosecond later. And the zero time does not start a generation. -/
theorem remembered_after_two_windows :
    (let c := ReplayCache.new 10 4
    let uses : List Use := [⟨[1], 100⟩, ⟨[2], 119⟩]
    c.accepted uses = uses ∧ ((c.after uses).use [1] 128).2 = .error .replayed) ∧
    (let c := ReplayCache.new 5000000000000000000 4
    let uses : List Use := [⟨[1], 1⟩, ⟨[2], 5000000000000000000⟩]
    c.accepted uses = uses ∧ ((c.after uses).use [2] 5000000000000000001).2 = .ok ()) ∧
    (let c := ReplayCache.new 10 4
    let uses : List Use := [⟨[1], 0⟩]
    c.accepted uses = uses ∧ ((c.after uses).use [1] 1000).2 = .error .replayed) := by
  decide

end Sanad.Pop
