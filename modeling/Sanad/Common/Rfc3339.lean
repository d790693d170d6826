import Mathlib.Tactic.Positivity
import Sanad.Common.Civil
import Sanad.Common.Json.Strings

/-! # Timestamps

RFC 3339 timestamps as Go's `time.Time` writes them into JSON and reads them back: an instant is shown
on the clock of a zone, with the fraction of the second as far as needed. Reading is lenient, as
`time.Parse` is: the hour may have one digit, a comma may stand before the fraction, and digits beyond
the nanosecond are dropped.

A zone is written in whole minutes, so an instant comes back from its text if the offset of its zone is
a number of minutes, and is off by the rest otherwise (`parse_marshal`).
-/

namespace Rfc3339

abbrev dash : UInt8 := 0x2d
abbrev plus : UInt8 := 0x2b
abbrev colon : UInt8 := 0x3a
abbrev fullStop : UInt8 := 0x2e
abbrev comma : UInt8 := 0x2c
abbrev letterT : UInt8 := 0x54
abbrev letterZ : UInt8 := 0x5a

/-! ## The clock -/

/-- A date with a time of the day. -/
structure Stamp where
  date : Civil.Date
  second : ℕ
  nano : ℕ
  second_lt : second < 86400
  nano_lt : nano < 1000000000

/-- The nanoseconds since January 1 of year 1. -/
def Stamp.toNanos (s : Stamp) : ℤ := (s.date.toDays * 86400 + s.second) * 1000000000 + s.nano

def Stamp.ofNanos (n : ℤ) : Stamp where
  date := .ofDays (n / 1000000000 / 86400)
  second := (n / 1000000000 % 86400).toNat
  nano := (n % 1000000000).toNat
  second_lt := by omega
  nano_lt := by omega

theorem Stamp.toNanos_ofNanos (n : ℤ) : (Stamp.ofNanos n).toNanos = n := by
  simp only [Stamp.toNanos, Stamp.ofNanos, Civil.Date.toDays_ofDays]
  omega

/-! ## Writing -/

/-- A number in a fixed number of digits. -/
def fixed : ℕ → ℕ → Bytes
  | 0, _ => []
  | w + 1, n => fixed w (n / 10) ++ [Json.decimalDigit (n % 10)]

/-- The digits of a fraction with `w` places, without zeros at the end. -/
def trimmed : ℕ → ℕ → Bytes
  | 0, _ => []
  | w + 1, n => if n = 0 then [] else Json.decimalDigit (n / 10 ^ w) :: trimmed w (n % 10 ^ w)

def writeFraction (nano : ℕ) : Bytes := if nano = 0 then [] else fullStop :: trimmed 9 nano

/-- The offset of a zone, in seconds, is written in whole minutes. -/
def writeZone (offset : ℤ) : Bytes :=
  if offset = 0 then [letterZ]
  else
    let zone := offset.tdiv 60
    (if zone < 0 then dash else plus) ::
      (fixed 2 (zone.natAbs / 60) ++ colon :: fixed 2 (zone.natAbs % 60))

def Stamp.write (s : Stamp) : Bytes :=
  fixed 4 s.date.year.toNat ++ dash :: (fixed 2 (s.date.month + 1) ++ dash :: (fixed 2 (s.date.day + 1) ++
    letterT :: (fixed 2 (s.second / 3600) ++ colon :: (fixed 2 (s.second % 3600 / 60) ++
      colon :: (fixed 2 (s.second % 60) ++ writeFraction s.nano)))))

/-- The text of an instant, in nanoseconds since year 1, in a zone with the given offset in seconds. A
year that has not four digits and an offset of a day or more are errors. -/
def marshal (t offset : ℤ) : Option Bytes :=
  let s := Stamp.ofNanos (t + offset * 1000000000)
  if 0 ≤ s.date.year ∧ s.date.year ≤ 9999 ∧ (offset.tdiv 60).natAbs / 60 < 24 then
    some (s.write ++ writeZone offset)
  else none

/-! ## Reading -/

def digit : Bytes → Option (ℕ × Bytes)
  | [] => none
  | c :: s => if Json.isDigit c then some (c.toNat - 0x30, s) else none

/-- A number with a fixed number of digits. -/
def number : ℕ → Bytes → Option (ℕ × Bytes)
  | 0, s => some (0, s)
  | w + 1, s => do
    let (n, s) ← number w s
    let (d, s) ← digit s
    some (n * 10 + d, s)

/-- A number with two digits or one. -/
def shortNumber (s : Bytes) : Option (ℕ × Bytes) := (number 2 s).or (digit s)

def expect (c : UInt8) : Bytes → Option Bytes
  | [] => none
  | d :: s => if d = c then some s else none

/-- The value of a fraction with `w` places; digits beyond them are dropped. -/
def scaled : ℕ → Bytes → ℕ
  | 0, _ => 0
  | _, [] => 0
  | w + 1, c :: s => (c.toNat - 0x30) * 10 ^ w + scaled w s

/-- The fraction of the second, in nanoseconds, if there is one. -/
def readFraction (s : Bytes) : ℕ × Bytes :=
  match s with
  | c :: d :: rest =>
    if (c = fullStop ∨ c = comma) ∧ Json.isDigit d then
      (scaled 9 ((d :: rest).takeWhile Json.isDigit), (d :: rest).dropWhile Json.isDigit)
    else (0, s)
  | _ => (0, s)

/-- The offset of the zone, in seconds, with nothing after it. -/
def readZone : Bytes → Option ℤ
  | [] => none
  | c :: s =>
    if c = letterZ then if s = [] then some 0 else none
    else if c = plus ∨ c = dash then do
      let (h, s) ← number 2 s
      let s ← expect colon s
      let (m, s) ← number 2 s
      if s = [] ∧ h ≤ 24 ∧ m ≤ 60 then
        some (if c = dash then -(((h * 60 + m) * 60 : ℕ) : ℤ) else ((h * 60 + m) * 60 : ℕ))
      else none
    else none

/-- A date, whose month and day are counted from one. -/
def makeDate (year month day : ℕ) : Option Civil.Date :=
  if h : 1 ≤ month ∧ 1 ≤ day ∧ month - 1 < 12 ∧ day - 1 < Civil.daysIn year (month - 1) then
    some ⟨year, month - 1, day - 1, h.2.2.1, h.2.2.2⟩
  else none

/-- The instant that a text stands for. -/
def parse (s : Bytes) : Option ℤ := do
  let (year, s) ← number 4 s
  let s ← expect dash s
  let (month, s) ← number 2 s
  let s ← expect dash s
  let (day, s) ← number 2 s
  let s ← expect letterT s
  let (hour, s) ← shortNumber s
  let s ← expect colon s
  let (minute, s) ← number 2 s
  let s ← expect colon s
  let (second, s) ← number 2 s
  let (nano, s) := readFraction s
  let offset ← readZone s
  let date ← makeDate year month day
  if hour < 24 ∧ minute < 60 ∧ second < 60 then
    some ((date.toDays * 86400 + (hour * 3600 + minute * 60 + second : ℕ) - offset) * 1000000000 + nano)
  else none

/-! ## Reading what was written -/

theorem digit_decimalDigit {d : ℕ} (h : d < 10) (s : Bytes) :
    digit (Json.decimalDigit d :: s) = some (d, s) := by
  rw [digit, if_pos (Json.isDigit_decimalDigit h), Json.decimalDigit_toNat h]

/-- What is written in a fixed number of digits is read back, whatever follows. -/
theorem number_fixed {w n : ℕ} (h : n < 10 ^ w) (s : Bytes) :
    number w (fixed w n ++ s) = some (n, s) := by
  induction w generalizing n s with
  | zero =>
      rw [Nat.pow_zero, Nat.lt_one_iff] at h
      rw [h]
      rfl
  | succ w ih =>
      have hdiv : n / 10 < 10 ^ w := by
        rw [Nat.pow_succ] at h
        omega
      rw [fixed, List.append_assoc, number, ih hdiv, List.singleton_append]
      simp only [Option.bind_eq_bind, Option.bind_some, digit_decimalDigit (show n % 10 < 10 by omega)]
      rw [Nat.div_add_mod']

theorem expect_cons (c : UInt8) (s : Bytes) : expect c (c :: s) = some s := if_pos rfl

theorem isDigit_trimmed {w n : ℕ} (h : n < 10 ^ w) : ∀ c ∈ trimmed w n, Json.isDigit c = true := by
  induction w generalizing n with
  | zero => simp [trimmed]
  | succ w ih =>
      rw [trimmed]
      split
      · simp
      · refine List.forall_mem_cons.mpr ⟨Json.isDigit_decimalDigit ?_, ih (Nat.mod_lt _ (by positivity))⟩
        rw [Nat.div_lt_iff_lt_mul (by positivity)]
        rwa [Nat.pow_succ'] at h

theorem scaled_trimmed {w n : ℕ} (h : n < 10 ^ w) : scaled w (trimmed w n) = n := by
  induction w generalizing n with
  | zero =>
      rw [Nat.pow_zero, Nat.lt_one_iff] at h
      rw [h]
      rfl
  | succ w ih =>
      rw [trimmed]
      split
      · next hn =>
          rw [hn]
          rfl
      · have hdiv : n / 10 ^ w < 10 := by
          rw [Nat.div_lt_iff_lt_mul (by positivity)]
          rwa [Nat.pow_succ'] at h
        rw [scaled, Json.decimalDigit_toNat hdiv, ih (Nat.mod_lt _ (by positivity))]
        exact Nat.div_add_mod' n (10 ^ w)

/-- The fraction is read back if no digit, point or comma follows. -/
theorem readFraction_writeFraction {nano : ℕ} (h : nano < 1000000000) {c : UInt8} (s : Bytes)
    (hdigit : Json.isDigit c = false) (hc : c ≠ fullStop ∧ c ≠ comma) :
    readFraction (writeFraction nano ++ c :: s) = (nano, c :: s) := by
  rw [writeFraction]
  split
  · next hzero =>
      rw [hzero, List.nil_append]
      cases s with
      | nil => rfl
      | cons d s => rw [readFraction, if_neg fun hd => hd.1.elim hc.1 hc.2]
  · next hne =>
      have hdigits := isDigit_trimmed (w := 9) h
      obtain ⟨d, ds, hds⟩ : ∃ d ds, trimmed 9 nano = d :: ds := by
        rw [trimmed, if_neg hne]
        exact ⟨_, _, rfl⟩
      have hd : Json.isDigit d = true := hdigits d (by rw [hds]; exact List.mem_cons_self)
      have htake : (trimmed 9 nano ++ c :: s).takeWhile Json.isDigit = trimmed 9 nano := by
        rw [List.takeWhile_append_of_pos hdigits, List.takeWhile_cons_of_neg (by simp [hdigit]),
          List.append_nil]
      have hdrop : (trimmed 9 nano ++ c :: s).dropWhile Json.isDigit = c :: s := by
        rw [List.dropWhile_append_of_pos hdigits, List.dropWhile_cons_of_neg (by simp [hdigit])]
      rw [hds, List.cons_append] at htake hdrop
      rw [hds, List.cons_append, List.cons_append, readFraction, if_pos ⟨.inl rfl, hd⟩, htake, hdrop,
        ← hds, scaled_trimmed h]

/-- A zone starts with none of the characters of a fraction. -/
theorem writeZone_head (offset : ℤ) :
    ∃ c s, writeZone offset = c :: s ∧ Json.isDigit c = false ∧ c ≠ fullStop ∧ c ≠ comma := by
  rw [writeZone]
  split
  · exact ⟨letterZ, [], rfl, by decide⟩
  · refine ⟨_, _, rfl, ?_⟩
    split <;> decide

theorem readZone_writeZone {offset : ℤ} (h : (offset.tdiv 60).natAbs / 60 < 24) :
    readZone (writeZone offset) = some (offset.tdiv 60 * 60) := by
  rw [writeZone]
  split
  · next hzero =>
      rw [hzero]
      rfl
  · have hhour : (offset.tdiv 60).natAbs / 60 < 10 ^ 2 := by omega
    have hminute : (offset.tdiv 60).natAbs % 60 < 10 ^ 2 := by omega
    have htail : ∀ n, fixed 2 n = fixed 2 n ++ [] := fun n => (List.append_nil _).symm
    dsimp only
    split
    · next hneg =>
        rw [htail ((offset.tdiv 60).natAbs % 60)]
        simp only [readZone, show dash ≠ letterZ by decide, if_false, or_true, if_true,
          number_fixed hhour, number_fixed hminute, expect_cons, Option.bind_eq_bind,
          Option.bind_some]
        rw [if_pos ⟨trivial, by omega, by omega⟩]
        congr 1
        omega
    · next hpos =>
        rw [htail ((offset.tdiv 60).natAbs % 60)]
        simp only [readZone, show plus ≠ letterZ by decide, show plus ≠ dash by decide, if_false,
          true_or, if_true, number_fixed hhour, number_fixed hminute, expect_cons,
          Option.bind_eq_bind, Option.bind_some]
        rw [if_pos ⟨trivial, by omega, by omega⟩]
        congr 1
        omega

theorem makeDate_date (d : Civil.Date) (h : 0 ≤ d.year) :
    makeDate d.year.toNat (d.month + 1) (d.day + 1) = some d := by
  have hyear : ((d.year.toNat : ℕ) : ℤ) = d.year := Int.toNat_of_nonneg h
  rw [makeDate, dif_pos ⟨by omega, by omega, d.month_lt, by rw [hyear]; exact d.day_lt⟩]
  exact congrArg some (Civil.Date.ext hyear rfl rfl)

theorem daysIn_le (y : ℤ) (m : ℕ) : Civil.daysIn y m ≤ 31 := by
  have hall : ∀ leap, ∀ l ∈ Civil.monthLengths leap, l ≤ 31 := by decide
  rw [Civil.daysIn]
  rcases Nat.lt_or_ge m (Civil.monthLengths (Civil.isLeap y)).length with h | h
  · rw [List.getD_eq_getElem _ _ h]
    exact hall _ _ (List.getElem_mem h)
  · rw [List.getD_eq_default _ _ h]
    exact Nat.zero_le 31

/-- A timestamp is read back as the instant it was written for, up to the seconds of the zone that it
does not show. -/
theorem parse_marshal {t offset : ℤ} {b : Bytes} (h : marshal t offset = some b) :
    parse b = some (t + (offset - offset.tdiv 60 * 60) * 1000000000) := by
  rw [marshal] at h
  split at h
  · next hrange =>
      obtain ⟨hlow, hhigh, hzone⟩ := hrange
      obtain rfl := Option.some.inj h
      have hnanos := Stamp.toNanos_ofNanos (t + offset * 1000000000)
      generalize Stamp.ofNanos (t + offset * 1000000000) = s at *
      obtain ⟨c, rest, hhead, hdigit, hc⟩ := writeZone_head offset
      have hyear : s.date.year.toNat < 10 ^ 4 := by omega
      have hmonth : s.date.month + 1 < 10 ^ 2 := by have := s.date.month_lt; omega
      have hday : s.date.day + 1 < 10 ^ 2 := by
        have := s.date.day_lt
        have := daysIn_le s.date.year s.date.month
        omega
      have hsec := s.second_lt
      have hhour : s.second / 3600 < 10 ^ 2 := by omega
      have hmin : s.second % 3600 / 60 < 10 ^ 2 := by omega
      have hsecond : s.second % 60 < 10 ^ 2 := by omega
      have hfraction := readFraction_writeFraction s.nano_lt rest hdigit hc
      rw [← hhead] at hfraction
      have hreadZone := readZone_writeZone hzone
      simp only [Stamp.write, List.append_assoc, List.cons_append, parse, shortNumber,
        number_fixed hyear, number_fixed hmonth, number_fixed hday, number_fixed hhour,
        number_fixed hmin, number_fixed hsecond, expect_cons, hfraction, hreadZone,
        makeDate_date s.date hlow, Option.bind_eq_bind, Option.bind_some, Option.some_or]
      rw [if_pos ⟨by omega, by omega, by omega⟩]
      congr 1
      rw [Stamp.toNanos] at hnanos
      have hclock : s.second / 3600 * 3600 + s.second % 3600 / 60 * 60 + s.second % 60 = s.second := by
        omega
      rw [hclock]
      omega
  · cases h

example : marshal 63902779200123000000 7200 = some (Bytes.ascii "2025-12-31T14:00:00.123+02:00") ∧
    parse (Bytes.ascii "2025-12-31T14:00:00,1230+02:00") = some 63902779200123000000 := by
  decide +kernel

end Rfc3339
