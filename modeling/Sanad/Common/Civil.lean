import Mathlib.Data.List.GetD
import Mathlib.Data.Int.Notation
import Mathlib.Logic.Equiv.Defs
import Mathlib.Tactic.Linarith

/-! # The Gregorian calendar

Days counted from January 1 of year 1, and the dates they are, with the calendar continued backwards
before its introduction. Days and dates determine each other (`dateEquiv`).
-/

namespace Civil

/-! ## Years -/

def isLeap (y : ℤ) : Bool := y % 4 = 0 && (y % 100 ≠ 0 || y % 400 = 0)

def yearLength (y : ℤ) : ℕ := if isLeap y then 366 else 365

/-- The number of the first day of a year. -/
def yearStart (y : ℤ) : ℤ := 365 * (y - 1) + (y - 1) / 4 - (y - 1) / 100 + (y - 1) / 400

/-- The year of a day: the mean length of a year gives it up to one. -/
def yearOf (n : ℤ) : ℤ :=
  let y := n * 400 / 146097
  if n < yearStart (y + 1) then y else if yearStart (y + 2) ≤ n then y + 2 else y + 1

theorem yearStart_succ (y : ℤ) : yearStart (y + 1) = yearStart y + yearLength y := by
  simp only [yearStart, yearLength, isLeap, Bool.and_eq_true, Bool.or_eq_true, decide_eq_true_eq]
  split <;> omega

theorem yearStart_mono {y y' : ℤ} (h : y ≤ y') : yearStart y ≤ yearStart y' := by
  rw [yearStart, yearStart]
  omega

theorem yearStart_yearOf (n : ℤ) : yearStart (yearOf n) ≤ n ∧ n < yearStart (yearOf n + 1) := by
  simp only [yearOf]
  split
  · next h =>
      refine ⟨?_, h⟩
      rw [yearStart] at h ⊢
      omega
  · next h =>
      rw [Int.not_lt] at h
      split
      · next h' =>
          refine ⟨h', ?_⟩
          rw [yearStart]
          omega
      · next h' => exact ⟨h, by rw [show n * 400 / 146097 + 1 + 1 = n * 400 / 146097 + 2 by omega]; omega⟩

/-- A day lies in one year. -/
theorem yearOf_eq {n y : ℤ} (hlow : yearStart y ≤ n) (hhigh : n < yearStart (y + 1)) :
    yearOf n = y := by
  obtain ⟨hlow', hhigh'⟩ := yearStart_yearOf n
  rcases Int.lt_trichotomy (yearOf n) y with h | h | h
  · have := yearStart_mono (show yearOf n + 1 ≤ y by omega)
    omega
  · exact h
  · have := yearStart_mono (show y + 1 ≤ yearOf n by omega)
    omega

/-! ## Months -/

def monthLengths (leap : Bool) : List ℕ :=
  [31, if leap then 29 else 28, 31, 30, 31, 30, 31, 31, 30, 31, 30, 31]

/-- The number of days of a month, counted from zero. -/
def daysIn (y : ℤ) (month : ℕ) : ℕ := (monthLengths (isLeap y)).getD month 0

/-- Which of the consecutive spans a position lies in, and where in it. -/
def locate : List ℕ → ℕ → ℕ × ℕ
  | [], d => (0, d)
  | l :: ls, d => if d < l then (0, d) else ((locate ls (d - l)).1 + 1, (locate ls (d - l)).2)

theorem locate_spec {ls : List ℕ} {d : ℕ} (h : d < ls.sum) :
    (locate ls d).1 < ls.length ∧ (locate ls d).2 < ls.getD (locate ls d).1 0 ∧
      (ls.take (locate ls d).1).sum + (locate ls d).2 = d := by
  induction ls generalizing d with
  | nil => simp at h
  | cons l ls ih =>
      rw [locate]
      split
      · next hd => simp [hd]
      · next hd =>
          rw [List.sum_cons] at h
          obtain ⟨hlen, hlt, hsum⟩ := ih (show d - l < ls.sum by omega)
          refine ⟨by simpa using hlen, by simpa using hlt, ?_⟩
          rw [List.take_succ_cons, List.sum_cons]
          omega

theorem locate_eq {ls : List ℕ} {m d : ℕ} (hd : d < ls.getD m 0) :
    locate ls ((ls.take m).sum + d) = (m, d) := by
  induction ls generalizing m with
  | nil => simp at hd
  | cons l ls ih =>
      cases m with
      | zero =>
          have hl : d < l := by simpa using hd
          simp [locate, hl]
      | succ m =>
          have hrest := ih (m := m) (by simpa using hd)
          rw [List.take_succ_cons, List.sum_cons, Nat.add_assoc, locate, if_neg (by omega),
            Nat.add_sub_cancel_left, hrest]

theorem sum_monthLengths (y : ℤ) : (monthLengths (isLeap y)).sum = yearLength y := by
  rw [yearLength]
  cases isLeap y <;> rfl

/-- Less than a whole year lies before a day of it. -/
theorem sum_take_lt {ls : List ℕ} {m d : ℕ} (hd : d < ls.getD m 0) : (ls.take m).sum + d < ls.sum := by
  induction ls generalizing m with
  | nil => simp at hd
  | cons l ls ih =>
      cases m with
      | zero =>
          have hl : d < l := by simpa using hd
          simp only [List.take_zero, List.sum_nil, List.sum_cons]
          omega
      | succ m =>
          have hrest := ih (m := m) (by simpa using hd)
          rw [List.take_succ_cons, List.sum_cons, List.sum_cons]
          omega

/-! ## Dates -/

/-- A date: the month and the day are counted from zero. -/
@[ext]
structure Date where
  year : ℤ
  month : ℕ
  day : ℕ
  month_lt : month < 12
  day_lt : day < daysIn year month

/-- The number of a date's day. -/
def Date.toDays (d : Date) : ℤ :=
  yearStart d.year + (((monthLengths (isLeap d.year)).take d.month).sum + d.day : ℕ)

/-- The day of the year. -/
def dayOfYear (n : ℤ) : ℕ := (n - yearStart (yearOf n)).toNat

theorem dayOfYear_lt (n : ℤ) : dayOfYear n < (monthLengths (isLeap (yearOf n))).sum := by
  obtain ⟨hlow, hhigh⟩ := yearStart_yearOf n
  rw [yearStart_succ] at hhigh
  rw [sum_monthLengths, dayOfYear]
  omega

/-- The date of a day. -/
def Date.ofDays (n : ℤ) : Date where
  year := yearOf n
  month := (locate (monthLengths (isLeap (yearOf n))) (dayOfYear n)).1
  day := (locate (monthLengths (isLeap (yearOf n))) (dayOfYear n)).2
  month_lt := (locate_spec (dayOfYear_lt n)).1
  day_lt := (locate_spec (dayOfYear_lt n)).2.1

theorem Date.toDays_ofDays (n : ℤ) : (Date.ofDays n).toDays = n := by
  have hsum := (locate_spec (dayOfYear_lt n)).2.2
  have hlow := (yearStart_yearOf n).1
  simp only [Date.toDays, Date.ofDays, hsum]
  rw [dayOfYear]
  omega

theorem Date.ofDays_toDays (d : Date) : Date.ofDays d.toDays = d := by
  have hlt := sum_take_lt d.day_lt
  have hyear : yearOf d.toDays = d.year := by
    rw [sum_monthLengths] at hlt
    refine yearOf_eq ?_ ?_
    · rw [Date.toDays]
      omega
    · rw [Date.toDays, yearStart_succ]
      omega
  have hday : dayOfYear d.toDays = ((monthLengths (isLeap d.year)).take d.month).sum + d.day := by
    rw [dayOfYear, hyear, Date.toDays]
    omega
  have hlocate := locate_eq d.day_lt
  ext
  · exact hyear
  · simp only [Date.ofDays, hyear, hday, hlocate]
  · simp only [Date.ofDays, hyear, hday, hlocate]

/-- Days and dates determine each other. -/
def dateEquiv : ℤ ≃ Date := ⟨Date.ofDays, Date.toDays, Date.toDays_ofDays, Date.ofDays_toDays⟩

example : (Date.ofDays 719162).year = 1970 ∧ (Date.ofDays 719162).day = 0 := by decide

end Civil
