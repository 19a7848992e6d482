/-
This file models the two printers of HTTP dates: the one for the expiry of cookies and the
one for the responses of the deception server. The first takes the year and the month off
the days one after the other, the second computes them with quotients.
-/

import Mathlib.Algebra.Ring.Int.Defs
import Bagel.Library.HttpDate

namespace Bagel

/-! ### The common form -/

/-- `{:0width$}` for an integer. The zeros come after the sign. -/
def zeroPadded (width : Nat) (value : Int) : String :=
  let sign := if value < 0 then "-" else ""
  let digits := toString value.natAbs
  sign ++ String.ofList (List.replicate (width - (sign.length + digits.length)) '0') ++ digits

/-- `"{}, {:02} {} {:04} {:02}:{:02}:{:02} GMT"`. -/
def dateText (weekday : String) (day : Int) (month : String) (year hour min sec : Int) : String :=
  weekday ++ ", " ++ zeroPadded 2 day ++ " " ++ month ++ " " ++ zeroPadded 4 year ++ " " ++
    zeroPadded 2 hour ++ ":" ++ zeroPadded 2 min ++ ":" ++ zeroPadded 2 sec ++ " GMT"

/-- `MONTHS`, the same in both. -/
def months : List String :=
  ["Jan", "Feb", "Mar", "Apr", "May", "Jun", "Jul", "Aug", "Sep", "Oct", "Nov", "Dec"]

/-! ### `token.rs` -/

/-- `is_leap`. The remainders are those of truncated division. -/
def isLeap (yr : Int) : Bool :=
  yr.tmod 4 == 0 && (yr.tmod 100 != 0 || yr.tmod 400 == 0)

/-- `DAYS_PER_MONTH`, of a year that is a leap year or not. -/
def daysPerMonth (leap : Bool) : List Int :=
  if leap then [31, 29, 31, 30, 31, 30, 31, 31, 30, 31, 30, 31]
  else [31, 28, 31, 30, 31, 30, 31, 31, 30, 31, 30, 31]

/-- `WDAYS`, from the day of the epoch on. -/
def wdays : List String := ["Thu", "Fri", "Sat", "Sun", "Mon", "Tue", "Wed"]

def daysInYear (year : Int) : Int := if isLeap year then 366 else 365

theorem daysInYear_pos (year : Int) : 0 < daysInYear year := by
  unfold daysInYear
  split
  · exact Int.ofNat_succ_pos _
  · exact Int.ofNat_succ_pos _

/-- The loop that takes whole years off the days. -/
def takeYears (days year : Int) : Int × Int :=
  if days < daysInYear year then (days, year)
  else takeYears (days - daysInYear year) (year + 1)
termination_by days.toNat
decreasing_by
  have positive := daysInYear_pos year
  omega

/-- The loop that takes whole months off the days of a year. -/
def takeMonths (leap : Bool) (days : Int) (month : Nat) : Int × Nat :=
  let daysInMonth := (daysPerMonth leap).getD month 0
  if month < 11 ∧ daysInMonth ≤ days then takeMonths leap (days - daysInMonth) (month + 1)
  else (days, month)
termination_by 11 - month

def formatHttpDate (epochSecs : Int) : String :=
  let wday := (epochSecs % (86400 * 7) / 86400).toNat
  let timeOfDay := epochSecs % 86400
  let hr := timeOfDay.tdiv 3600
  let min := (timeOfDay % 3600).tdiv 60
  let sec := timeOfDay % 60
  let (days, year) := takeYears (epochSecs / 86400) 1970
  let (days, month) := takeMonths (isLeap year) days 0
  let day := days + 1
  dateText (wdays.getD wday "") day (months.getD month "") year hr min sec

/-! ### `date.rs` -/

/-- `WEEKDAYS`. -/
def weekdays : List String := ["Sun", "Mon", "Tue", "Wed", "Thu", "Fri", "Sat"]

/-- `civil_from_days`. -/
def civilFromDays (z : Int) : Int × Nat × Nat :=
  let z := z + 719468
  let era := (if 0 ≤ z then z else z - 146096).tdiv 146097
  let doe : Nat := ((z - era * 146097) % 2 ^ 64).toNat
  let yoe : Nat := (doe - doe / 1460 + doe / 36524 - doe / 146096) / 365
  let year := (yoe : Int) + era * 400
  let doy : Nat := doe - (365 * yoe + yoe / 4 - yoe / 100)
  let mp : Nat := (5 * doy + 2) / 153
  let day : Nat := (doy - (153 * mp + 2) / 5 + 1) % 2 ^ 32
  let month : Nat := (if mp < 10 then mp + 3 else mp - 9) % 2 ^ 32
  (if month ≤ 2 then year + 1 else year, month, day)

def imfFixdate (secs : Nat) : String :=
  let days : Int := (secs / 86400 : Nat)
  let rem := secs % 86400
  let (hour, min, sec) := (rem / 3600, rem % 3600 / 60, rem % 60)
  let weekday := ((days + 4) % 7).toNat
  let (year, month, day) := civilFromDays days
  dateText (weekdays.getD weekday "") day (months.getD (month - 1) "") year hour min sec

end Bagel
