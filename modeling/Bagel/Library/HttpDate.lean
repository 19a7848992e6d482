/-
This file develops the preferred form of a date in HTTP, `IMF-fixdate`: the day of the week,
the date and the time of day at fixed places of a text in which every field has its width.

A field of digits is read back to the number that was written into it, so the whole text is
read back to its moment as long as the year has four digits.
-/

import Mathlib.Algebra.Ring.Nat
import Bagel.Library.Calendar
import Bagel.Library.Decimal

namespace HttpDate

open Calendar

/-! ### Numerals of a width -/

/-- A number in decimal, with zeros in front up to a width. -/
def numeral (width number : Nat) : List Char :=
  List.replicate (width - (toString number).toList.length) '0' ++ (toString number).toList

/-- The number that digits stand for. -/
def value (digits : List Char) : Nat :=
  digits.foldl (fun value digit => 10 * value + (digit.toNat - '0'.toNat)) 0

theorem value_numeral (width number : Nat) : value (numeral width number) = number := by
  have zeros : ∀ count : Nat, (List.replicate count '0').foldl
      (fun value digit => 10 * value + (digit.toNat - '0'.toNat)) 0 = 0 := by
    intro count
    induction count with
    | zero => rfl
    | succ count inductionHypothesis => exact inductionHypothesis
  rw [value, numeral, List.foldl_append, zeros, Decimal.foldl_toString]

theorem isDigit_of_mem_numeral {width number : Nat} {char : Char}
    (member : char ∈ numeral width number) : char.isDigit := by
  rcases List.mem_append.mp member with zero | digit
  · rw [List.eq_of_mem_replicate zero]
    rfl
  · exact Decimal.isDigit_of_mem digit

theorem length_numeral {width number : Nat} (positive : 0 < width) (fits : number < 10 ^ width) :
    (numeral width number).length = width := by
  have short : (toString number).toList.length ≤ width := by
    rw [Decimal.toList_toString]
    exact (Nat.length_toDigits_le_iff (by decide) positive).mpr fits
  rw [numeral, List.length_append, List.length_replicate]
  omega

/-! ### Reading the front of a text -/

/-- Read a number of a width. -/
def readNumber (width : Nat) (text : List Char) : Option (Nat × List Char) :=
  if (text.take width).length = width ∧ (text.take width).all Char.isDigit then
    some (value (text.take width), text.drop width)
  else none

/-- Read a text that has to be there. -/
def expect (mark text : List Char) : Option (List Char) :=
  if mark <+: text then some (text.drop mark.length) else none

/-- Read one of several names, as what it stands for. -/
def readName {Value : Type} : List (List Char × Value) → List Char → Option (Value × List Char)
  | [], _ => none
  | (name, value) :: names, text =>
    if name <+: text then some (value, text.drop name.length) else readName names text

theorem readNumber_append {width number : Nat} (positive : 0 < width)
    (fits : number < 10 ^ width) (rest : List Char) :
    readNumber width (numeral width number ++ rest) = some (number, rest) := by
  have long := length_numeral positive fits
  have front : (numeral width number ++ rest).take width = numeral width number := by
    rw [List.take_left' long]
  have digits : (numeral width number).all Char.isDigit = true :=
    List.all_eq_true.mpr fun _ member => isDigit_of_mem_numeral member
  rw [readNumber, front, if_pos ⟨long, digits⟩, value_numeral, List.drop_left' long]

theorem expect_append (mark rest : List Char) : expect mark (mark ++ rest) = some rest := by
  rw [expect, if_pos (List.prefix_append _ _), List.drop_left]

/-- Of different names of one length, the one that was written is read. -/
theorem readName_append {Value : Type} {names : List (List Char × Value)} {width : Nat}
    (lengths : ∀ entry ∈ names, entry.1.length = width) (different : (names.map Prod.fst).Nodup)
    {name : List Char} {value : Value} (member : (name, value) ∈ names) (rest : List Char) :
    readName names (name ++ rest) = some (value, rest) := by
  induction names with
  | nil => exact absurd member List.not_mem_nil
  | cons entry names inductionHypothesis =>
    obtain ⟨first, other⟩ := entry
    rw [List.map_cons, List.nodup_cons] at different
    rw [readName]
    rcases List.mem_cons.mp member with same | later
    · cases same
      rw [if_pos (List.prefix_append _ _), List.drop_left]
    · have unequal : ¬ first <+: name ++ rest := by
        intro front
        have long : first.length = name.length :=
          (lengths _ List.mem_cons_self).trans (lengths _ member).symm
        have within : first <+: name :=
          List.prefix_of_prefix_length_le front (List.prefix_append name rest) long.le
        have same : first = name := within.eq_of_length long
        exact different.1 (List.mem_map.mpr ⟨(name, value), later, same.symm⟩)
      rw [if_neg unequal]
      exact inductionHypothesis (fun entry inside => lengths entry (.tail _ inside)) different.2
        later

/-! ### Names -/

def weekdayNames : List (List Char × Weekday) :=
  [("Mon".toList, .monday), ("Tue".toList, .tuesday), ("Wed".toList, .wednesday),
    ("Thu".toList, .thursday), ("Fri".toList, .friday), ("Sat".toList, .saturday),
    ("Sun".toList, .sunday)]

def weekdayName : Weekday → List Char
  | .monday => "Mon".toList
  | .tuesday => "Tue".toList
  | .wednesday => "Wed".toList
  | .thursday => "Thu".toList
  | .friday => "Fri".toList
  | .saturday => "Sat".toList
  | .sunday => "Sun".toList

def monthNames : List (List Char) :=
  ["Jan".toList, "Feb".toList, "Mar".toList, "Apr".toList, "May".toList, "Jun".toList,
    "Jul".toList, "Aug".toList, "Sep".toList, "Oct".toList, "Nov".toList, "Dec".toList]

def monthName (month : Nat) : List Char := monthNames.getD month []

theorem weekdayNames_length : ∀ entry ∈ weekdayNames, entry.1.length = 3 := by decide

theorem weekdayNames_nodup : (weekdayNames.map Prod.fst).Nodup := by decide

theorem monthNames_length : ∀ entry ∈ monthNames.zipIdx, entry.1.length = 3 := by decide

theorem monthNames_nodup : (monthNames.zipIdx.map Prod.fst).Nodup := by decide

theorem weekdayName_mem (weekday : Weekday) : (weekdayName weekday, weekday) ∈ weekdayNames := by
  cases weekday <;> decide

theorem monthName_mem {month : Nat} (below : month < 12) :
    (monthName month, month) ∈ monthNames.zipIdx := by
  have all : ∀ month < 12, (monthName month, month) ∈ monthNames.zipIdx := by decide
  exact all month below

/-! ### Texts -/

def printDate (weekday : Weekday) (date : Date) : List Char :=
  weekdayName weekday ++ (", ".toList ++ (numeral 2 date.day ++ (" ".toList ++
    (monthName date.month ++ (" ".toList ++ numeral 4 date.year)))))

def printTime (hour minute second : Nat) : List Char :=
  numeral 2 hour ++ (":".toList ++ (numeral 2 minute ++ (":".toList ++ numeral 2 second)))

/-- The text of a moment. -/
def print (moment : Moment) : List Char :=
  printDate moment.weekday moment.date ++ (" ".toList ++
    (printTime moment.hour moment.minute moment.second ++ " GMT".toList))

/-- The moment with some fields, if there is such a date and time of day. -/
def resolve (weekday : Weekday) (day month year hour minute second : Nat) : Option Moment :=
  if valid : (month < 12 ∧ 0 < day ∧ day ≤ monthLength year month) ∧
      hour < 24 ∧ minute < 60 ∧ second < 60 then
    some
      { weekday := weekday
        date := ⟨year, month, day, valid.1.1, valid.1.2.1, valid.1.2.2⟩
        hour := hour
        minute := minute
        second := second
        hour_lt := valid.2.1
        minute_lt := valid.2.2.1
        second_lt := valid.2.2.2 }
  else none

def parseDate (text : List Char) : Option ((Weekday × Nat × Nat × Nat) × List Char) := do
  let (weekday, text) ← readName weekdayNames text
  let text ← expect ", ".toList text
  let (day, text) ← readNumber 2 text
  let text ← expect " ".toList text
  let (month, text) ← readName monthNames.zipIdx text
  let text ← expect " ".toList text
  let (year, text) ← readNumber 4 text
  return ((weekday, day, month, year), text)

def parseTime (text : List Char) : Option ((Nat × Nat × Nat) × List Char) := do
  let (hour, text) ← readNumber 2 text
  let text ← expect ":".toList text
  let (minute, text) ← readNumber 2 text
  let text ← expect ":".toList text
  let (second, text) ← readNumber 2 text
  return ((hour, minute, second), text)

/-- The moment that a text stands for. -/
def parse (text : List Char) : Option Moment := do
  let ((weekday, day, month, year), text) ← parseDate text
  let text ← expect " ".toList text
  let ((hour, minute, second), text) ← parseTime text
  if text = " GMT".toList then resolve weekday day month year hour minute second else none

theorem resolve_moment (moment : Moment) :
    resolve moment.weekday moment.date.day moment.date.month moment.date.year moment.hour
      moment.minute moment.second = some moment :=
  dif_pos ⟨⟨moment.date.month_lt, moment.date.day_pos, moment.date.day_le⟩, moment.hour_lt,
    moment.minute_lt, moment.second_lt⟩

theorem monthLength_le (year month : Nat) : monthLength year month ≤ 31 := by
  unfold monthLength
  split
  · split
    · exact Nat.le_add_left _ _
    · exact Nat.le_add_left _ _
  · split
    · exact Nat.le_add_left _ _
    · exact Nat.le_add_left _ _

theorem parseDate_print (weekday : Weekday) (date : Date) (fits : date.year ≤ 9999)
    (rest : List Char) :
    parseDate (printDate weekday date ++ rest) =
      some ((weekday, date.day, date.month, date.year), rest) := by
  have day : date.day < 10 ^ 2 := (date.day_le.trans (monthLength_le _ _)).trans_lt (by decide)
  have year : date.year < 10 ^ 4 := Nat.lt_succ_of_le fits
  have names : ∀ rest, readName weekdayNames (weekdayName weekday ++ rest) =
      some (weekday, rest) :=
    readName_append weekdayNames_length weekdayNames_nodup (weekdayName_mem _)
  have month : ∀ rest, readName monthNames.zipIdx (monthName date.month ++ rest) =
      some (date.month, rest) :=
    readName_append monthNames_length monthNames_nodup (monthName_mem date.month_lt)
  simp only [parseDate, printDate, List.append_assoc, names, Option.bind_eq_bind, Option.bind_some,
    expect_append, month, readNumber_append Nat.two_pos day, Option.pure_def,
    readNumber_append (Nat.succ_pos 3) year]

theorem parseTime_print {hour minute second : Nat} (hour_lt : hour < 24) (minute_lt : minute < 60)
    (second_lt : second < 60) (rest : List Char) :
    parseTime (printTime hour minute second ++ rest) = some ((hour, minute, second), rest) := by
  have hours : hour < 10 ^ 2 := hour_lt.trans (by decide)
  have minutes : minute < 10 ^ 2 := minute_lt.trans (by decide)
  have seconds : second < 10 ^ 2 := second_lt.trans (by decide)
  simp only [parseTime, printTime, List.append_assoc, Option.bind_eq_bind, Option.bind_some,
    expect_append, Option.pure_def, readNumber_append Nat.two_pos hours,
    readNumber_append Nat.two_pos minutes, readNumber_append Nat.two_pos seconds]

/-- A text is read back to its moment when the year has at most four digits. -/
theorem parse_print (moment : Moment) (fits : moment.date.year ≤ 9999) :
    parse (print moment) = some moment := by
  simp only [parse, print, parseDate_print _ _ fits, Option.bind_eq_bind, Option.bind_some,
    expect_append, parseTime_print moment.hour_lt moment.minute_lt moment.second_lt, if_true]
  exact resolve_moment moment

end HttpDate
