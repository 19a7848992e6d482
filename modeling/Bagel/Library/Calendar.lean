/-
This file develops the proleptic Gregorian calendar.

A date is a day of a month of a year, and every date has a next one. That determines which
date it is some days after another; the days of the week go round meanwhile. The number of
days from the beginning of year 0 to a date grows by one with every date, so it tells a date
from all others, and a computation of dates is right when it gives the right number.
-/

import Mathlib.Data.Fin.Basic
import Mathlib.Logic.Function.Iterate

namespace Calendar

/-! ### Dates -/

/-- A year is a leap year when four divides it, but hundred only if four hundred does. -/
def isLeap (year : Nat) : Bool :=
  year % 4 == 0 && (year % 100 != 0 || year % 400 == 0)

/-- The days of a month, which are counted from 0. -/
def monthLength (year month : Nat) : Nat :=
  if month = 1 then if isLeap year then 29 else 28
  else if month = 3 ∨ month = 5 ∨ month = 8 ∨ month = 10 then 30
  else 31

/-- A date. Months are counted from 0, and days from 1. -/
@[ext]
structure Date where
  year : Nat
  month : Nat
  day : Nat
  month_lt : month < 12
  day_pos : 0 < day
  day_le : day ≤ monthLength year month
  deriving DecidableEq

theorem monthLength_pos (year month : Nat) : 0 < monthLength year month := by
  unfold monthLength
  split
  · split
    · exact Nat.succ_pos _
    · exact Nat.succ_pos _
  · split
    · exact Nat.succ_pos _
    · exact Nat.succ_pos _

namespace Date

/-- The day after a date. -/
def next (date : Date) : Date :=
  if within : date.day < monthLength date.year date.month then
    ⟨date.year, date.month, date.day + 1, date.month_lt, Nat.succ_pos _, within⟩
  else if within : date.month < 11 then
    ⟨date.year, date.month + 1, 1, Nat.succ_lt_succ within, Nat.one_pos, monthLength_pos _ _⟩
  else ⟨date.year + 1, 0, 1, Nat.succ_pos _, Nat.one_pos, monthLength_pos _ _⟩

end Date

/-! ### Numbers of days -/

/-- The days before a year, from year 0 on. -/
def yearStart (year : Nat) : Nat :=
  365 * year + (year + 3) / 4 - (year + 99) / 100 + (year + 399) / 400

/-- The days of a year before a month. -/
def monthStart (year : Nat) : Nat → Nat
  | 0 => 0
  | month + 1 => monthStart year month + monthLength year month

/-- The number of a date. -/
def Date.ordinal (date : Date) : Nat :=
  yearStart date.year + monthStart date.year date.month + (date.day - 1)

/-- The days of a year. -/
def yearLength (year : Nat) : Nat := if isLeap year then 366 else 365

theorem yearStart_succ (year : Nat) : yearStart (year + 1) = yearStart year + yearLength year := by
  have fours : (year + 1 + 3) / 4 = (year + 3) / 4 + if year % 4 = 0 then 1 else 0 := by
    split <;> omega
  have hundreds : (year + 1 + 99) / 100 = (year + 99) / 100 + if year % 100 = 0 then 1 else 0 := by
    split <;> omega
  have eras : (year + 1 + 399) / 400 = (year + 399) / 400 + if year % 400 = 0 then 1 else 0 := by
    split <;> omega
  have fewer : (year + 99) / 100 ≤ (year + 3) / 4 := by omega
  have length : yearLength year + (if year % 100 = 0 then 1 else 0) =
      365 + (if year % 4 = 0 then 1 else 0) + if year % 400 = 0 then 1 else 0 := by
    simp only [yearLength, isLeap, Bool.and_eq_true, Bool.or_eq_true, beq_iff_eq, bne_iff_ne]
    grind
  have fewer' : (year + 1 + 99) / 100 ≤ (year + 1 + 3) / 4 := by omega
  unfold yearStart
  rw [fours, hundreds] at fewer' ⊢
  rw [eras]
  omega

theorem monthStart_twelve (year : Nat) : monthStart year 12 = yearLength year := by
  simp only [monthStart, monthLength, yearLength]
  cases isLeap year <;> rfl

theorem yearStart_mono {first second : Nat} (before : first ≤ second) :
    yearStart first ≤ yearStart second :=
  monotone_nat_of_le_succ (fun year => by rw [yearStart_succ]; exact Nat.le_add_right _ _) before

theorem monthStart_mono (year : Nat) {first second : Nat} (before : first ≤ second) :
    monthStart year first ≤ monthStart year second :=
  monotone_nat_of_le_succ (fun _ => Nat.le_add_right _ _) before

namespace Date

/-- A date lies within its month. -/
theorem ordinal_lt_monthStart (date : Date) :
    yearStart date.year + monthStart date.year date.month ≤ date.ordinal ∧
      date.ordinal < yearStart date.year + monthStart date.year (date.month + 1) := by
  have positive := date.day_pos
  have inside := date.day_le
  rw [ordinal, monthStart]
  omega

/-- A date lies within its year. -/
theorem ordinal_lt_yearStart (date : Date) :
    yearStart date.year ≤ date.ordinal ∧ date.ordinal < yearStart (date.year + 1) := by
  have inside := date.ordinal_lt_monthStart
  have last := monthStart_mono date.year (Nat.add_one_le_iff.mpr date.month_lt)
  rw [monthStart_twelve] at last
  rw [yearStart_succ]
  omega

theorem year_lt_iff (date : Date) (year : Nat) :
    date.year < year ↔ date.ordinal < yearStart year := by
  have inside := date.ordinal_lt_yearStart
  constructor
  · intro before
    exact inside.2.trans_le (yearStart_mono (Nat.add_one_le_iff.mpr before))
  · intro before
    by_contra after
    have beyond := before.trans_le (yearStart_mono (Nat.le_of_not_lt after))
    exact absurd beyond (Nat.not_lt.mpr inside.1)

theorem ordinal_next (date : Date) : date.next.ordinal = date.ordinal + 1 := by
  have positive := date.day_pos
  have inside := date.day_le
  have below := date.month_lt
  unfold next
  split
  · simp only [ordinal]
    omega
  · split
    · simp only [ordinal, monthStart]
      omega
    · have last : date.month = 11 := by omega
      have whole := monthStart_twelve date.year
      rw [monthStart, ← last] at whole
      simp only [ordinal, monthStart, yearStart_succ]
      omega

/-- Dates of one number are the same. -/
theorem ordinal_injective : Function.Injective ordinal := by
  intro first second same
  have inYear := first.ordinal_lt_yearStart
  have inYear' := second.ordinal_lt_yearStart
  have years : first.year = second.year := by
    rcases lt_trichotomy first.year second.year with before | equal | after
    · have ordered := yearStart_mono (Nat.add_one_le_iff.mpr before)
      omega
    · exact equal
    · have ordered := yearStart_mono (Nat.add_one_le_iff.mpr after)
      omega
  have inMonth := first.ordinal_lt_monthStart
  have inMonth' := second.ordinal_lt_monthStart
  rw [years] at inMonth
  have months : first.month = second.month := by
    rcases lt_trichotomy first.month second.month with before | equal | after
    · have ordered := monthStart_mono second.year (Nat.add_one_le_iff.mpr before)
      omega
    · exact equal
    · have ordered := monthStart_mono second.year (Nat.add_one_le_iff.mpr after)
      omega
  have positive := first.day_pos
  have positive' := second.day_pos
  rw [ordinal, ordinal, years, months] at same
  exact Date.ext years months (by omega)

theorem ordinal_iterate_next (date : Date) (days : Nat) :
    (next^[days] date).ordinal = date.ordinal + days := by
  induction days with
  | zero => rfl
  | succ days inductionHypothesis =>
    rw [Function.iterate_succ_apply', ordinal_next, inductionHypothesis, Nat.add_assoc]

/-- A date comes some days after another exactly when its number is larger by as many. -/
theorem eq_iterate_next_iff (date start : Date) (days : Nat) :
    date = next^[days] start ↔ date.ordinal = start.ordinal + days := by
  rw [← ordinal_iterate_next]
  exact ordinal_injective.eq_iff.symm

end Date

/-! ### Days of the week -/

inductive Weekday where
  | monday | tuesday | wednesday | thursday | friday | saturday | sunday
  deriving DecidableEq

namespace Weekday

def next : Weekday → Weekday
  | monday => tuesday
  | tuesday => wednesday
  | wednesday => thursday
  | thursday => friday
  | friday => saturday
  | saturday => sunday
  | sunday => monday

/-- A week later it is the same day of the week. -/
theorem iterate_next_seven (day : Weekday) : next^[7] day = day := by
  cases day <;> rfl

theorem iterate_next_mod (day : Weekday) (days : Nat) : next^[days] day = next^[days % 7] day := by
  have weeks : ∀ count : Nat, next^[7 * count] day = day := by
    intro count
    rw [Function.iterate_mul]
    exact Function.iterate_fixed (iterate_next_seven day) count
  conv_lhs => rw [← Nat.mod_add_div days 7, Function.iterate_add_apply, weeks]

end Weekday

/-! ### Moments -/

/-- A second of a day of a date. -/
structure Moment where
  weekday : Weekday
  date : Date
  hour : Nat
  minute : Nat
  second : Nat
  hour_lt : hour < 24
  minute_lt : minute < 60
  second_lt : second < 60
  deriving DecidableEq

/-- The first of January 1970. -/
def epoch : Date := ⟨1970, 0, 1, Nat.succ_pos _, Nat.one_pos, monthLength_pos _ _⟩

theorem hourOf_lt (seconds : Nat) : seconds % 86400 / 3600 < 24 := by omega

theorem minuteOf_lt (seconds : Nat) : seconds % 3600 / 60 < 60 := by omega

/-- The moment some seconds after the beginning of 1970, which was a Thursday. -/
def moment (seconds : Nat) : Moment where
  weekday := Weekday.next^[seconds / 86400] .thursday
  date := Date.next^[seconds / 86400] epoch
  hour := seconds % 86400 / 3600
  minute := seconds % 3600 / 60
  second := seconds % 60
  hour_lt := hourOf_lt seconds
  minute_lt := minuteOf_lt seconds
  second_lt := Nat.mod_lt _ (Nat.succ_pos _)

/-- The seconds from the beginning of 1970 to a moment, which may come before. -/
def Moment.seconds (moment : Moment) : Int :=
  (moment.date.ordinal - epoch.ordinal : Int) * 86400 + moment.hour * 3600 + moment.minute * 60 +
    moment.second

theorem seconds_moment (seconds : Nat) : (moment seconds).seconds = seconds := by
  have inDay := Nat.div_add_mod seconds 86400
  have inHour := Nat.div_add_mod (seconds % 86400) 3600
  have inMinute := Nat.div_add_mod (seconds % 3600) 60
  rw [Nat.mod_mod_of_dvd _ (by decide)] at inHour inMinute
  rw [Moment.seconds, moment, Date.ordinal_iterate_next]
  dsimp only
  generalize seconds / 86400 = day at *
  generalize seconds % 86400 / 3600 = hour at *
  generalize seconds % 3600 / 60 = minute at *
  omega

end Calendar
