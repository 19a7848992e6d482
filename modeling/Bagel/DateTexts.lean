/-
This file proves that the two printers of HTTP dates print the moment of the proleptic
Gregorian calendar, and hence the same text.

Both are right because the numbers they print make a date with the right number of days
before it. The loops keep that number: what they take off the days is what they put into the
year and the month. The quotients count the years from the first of March, where the day that
leap years have more is the last of its year, of its four years and of its era of four
hundred.
-/

import Mathlib.Tactic.IntervalCases
import Bagel.HttpDates

namespace Bagel

open Calendar

/-! ### Texts -/

theorem toList_zeroPadded (width number : Nat) :
    (zeroPadded width number).toList = HttpDate.numeral width number := by
  have positive : ¬ (number : Int) < 0 := Int.not_lt.mpr (Int.natCast_nonneg number)
  rw [zeroPadded, if_neg positive, Int.natAbs_natCast, HttpDate.numeral]
  simp only [String.toList_append, String.toList_ofList, String.length_empty, Nat.zero_add,
    String.length_toList, String.toList_empty, List.nil_append]

/-- The common form has the fields of a moment when it is given them. -/
theorem toList_dateText (moment : Moment) {weekday month : String}
    (weekdayName : weekday.toList = HttpDate.weekdayName moment.weekday)
    (monthName : month.toList = HttpDate.monthName moment.date.month) :
    (dateText weekday moment.date.day month moment.date.year moment.hour moment.minute
      moment.second).toList = HttpDate.print moment := by
  simp only [dateText, String.toList_append, toList_zeroPadded, weekdayName, monthName,
    HttpDate.print, HttpDate.printDate, HttpDate.printTime, List.append_assoc]

theorem toList_months {month : Nat} (below : month < 12) :
    (months.getD month "").toList = HttpDate.monthName month := by
  have all : ∀ month < 12, (months.getD month "").toList = HttpDate.monthName month := by decide
  exact all month below

/-! ### Days of the week -/

theorem toList_wdays (days : Nat) :
    (wdays.getD (days % 7) "").toList = HttpDate.weekdayName (Weekday.next^[days] .thursday) := by
  rw [Weekday.iterate_next_mod]
  have all : ∀ days < 7, (wdays.getD days "").toList =
      HttpDate.weekdayName (Weekday.next^[days] .thursday) := by decide
  exact all _ (Nat.mod_lt _ (Nat.succ_pos _))

theorem toList_weekdays (days : Nat) :
    (weekdays.getD ((days + 4) % 7) "").toList =
      HttpDate.weekdayName (Weekday.next^[days] .thursday) := by
  rw [Weekday.iterate_next_mod, Nat.add_mod]
  have all : ∀ days < 7, (weekdays.getD ((days + 4 % 7) % 7) "").toList =
      HttpDate.weekdayName (Weekday.next^[days] .thursday) := by decide
  exact all _ (Nat.mod_lt _ (Nat.succ_pos _))

/-! ### The date of a number of days -/

theorem ordinal_epoch : epoch.ordinal = 719528 := by decide

/-- The fields of the date some days after the first of January 1970. -/
theorem fields_of_ordinal {year month day days : Nat} (below : month < 12) (positive : 0 < day)
    (inside : day ≤ monthLength year month)
    (number : yearStart year + monthStart year month + (day - 1) = 719528 + days) :
    Date.next^[days] epoch = ⟨year, month, day, below, positive, inside⟩ := by
  refine ((Date.eq_iterate_next_iff _ _ _).mpr ?_).symm
  rw [ordinal_epoch]
  exact number

/-! ### The loops -/

theorem isLeap_natCast (year : Nat) : isLeap year = Calendar.isLeap year := by
  rw [isLeap, Calendar.isLeap, Bool.eq_iff_iff]
  simp only [Bool.and_eq_true, Bool.or_eq_true, beq_iff_eq, bne_iff_ne,
    Int.tmod_eq_emod_of_nonneg (Int.natCast_nonneg year)]
  omega

theorem daysInYear_natCast (year : Nat) : daysInYear year = (yearLength year : Nat) := by
  rw [daysInYear, yearLength, isLeap_natCast]
  split <;> rfl

/-- The first loop ends in the year of the day. -/
theorem takeYears_spec (days year : Nat) :
    ∃ rest last : Nat, takeYears days year = ((rest : Int), (last : Int)) ∧ rest < yearLength last ∧
      yearStart last + rest = yearStart year + days := by
  induction days using Nat.strongRecOn generalizing year with
  | ind days inductionHypothesis =>
    have positive := daysInYear_pos year
    rw [daysInYear_natCast] at positive
    rw [takeYears, daysInYear_natCast]
    by_cases within : days < yearLength year
    · rw [if_pos (Int.ofNat_lt.mpr within)]
      exact ⟨days, year, rfl, within, rfl⟩
    · rw [if_neg (by omega), ← Int.ofNat_sub (Nat.le_of_not_lt within)]
      obtain ⟨rest, last, loop, inside, sum⟩ :=
        inductionHypothesis (days - yearLength year) (by omega) (year + 1)
      refine ⟨rest, last, loop, inside, ?_⟩
      rw [sum, yearStart_succ]
      omega

theorem daysPerMonth_getD (year : Nat) {month : Nat} (below : month < 12) :
    (daysPerMonth (Calendar.isLeap year)).getD month 0 = (monthLength year month : Nat) := by
  unfold monthLength
  cases Calendar.isLeap year <;> interval_cases month <;> rfl

/-- The second loop ends in the month of the day. -/
theorem takeMonths_spec (year days month : Nat) (below : month < 12)
    (inside : monthStart year month + days < yearLength year) :
    ∃ rest last : Nat, takeMonths (Calendar.isLeap year) days month = ((rest : Int), last) ∧
      last < 12 ∧ rest < monthLength year last ∧
      monthStart year last + rest = monthStart year month + days := by
  induction remaining : 11 - month generalizing days month with
  | zero =>
    have last : month = 11 := by omega
    rw [takeMonths, if_neg (by omega)]
    refine ⟨days, month, rfl, below, ?_, rfl⟩
    rw [← monthStart_twelve, monthStart, ← last] at inside
    omega
  | succ remaining inductionHypothesis =>
    rw [takeMonths, daysPerMonth_getD year below]
    by_cases within : days < monthLength year month
    · rw [if_neg (by omega)]
      exact ⟨days, month, rfl, below, within, rfl⟩
    · rw [if_pos (by omega), ← Int.ofNat_sub (Nat.le_of_not_lt within)]
      have sum : monthStart year (month + 1) + (days - monthLength year month) =
          monthStart year month + days := by
        rw [monthStart]
        omega
      obtain ⟨rest, last, loop, final⟩ :=
        inductionHypothesis (days - monthLength year month) (month + 1) (by omega) (sum ▸ inside)
          (by omega)
      exact ⟨rest, last, loop, final.1, final.2.1, final.2.2.trans sum⟩

/-- The loops find the date. -/
theorem loops_spec (days : Nat) :
    ∃ rest : Nat, takeYears days 1970 = ((rest : Int), ((Date.next^[days] epoch).year : Int)) ∧
      takeMonths (isLeap (Date.next^[days] epoch).year) rest 0 =
        (((Date.next^[days] epoch).day - 1 : Int), (Date.next^[days] epoch).month) := by
  obtain ⟨rest, year, years, inYear, yearSum⟩ := takeYears_spec days 1970
  obtain ⟨day, month, months, below, inMonth, monthSum⟩ :=
    takeMonths_spec year rest 0 (Nat.succ_pos _) (by rwa [monthStart, Nat.zero_add])
  have start : yearStart 1970 = 719528 := by decide
  have number : yearStart year + monthStart year month + (day + 1 - 1) = 719528 + days := by
    rw [monthStart, Nat.zero_add] at monthSum
    omega
  have date := fields_of_ordinal below (Nat.succ_pos day) inMonth number
  refine ⟨rest, ?_, ?_⟩
  · rw [date]
    exact years
  · rw [date, isLeap_natCast, months]
    simp

/-! ### The quotients -/

/-- A day of an era lies in a century, in four years of it, in one of these years. The centuries
and the four years are the same but for the day at the end of the last. -/
theorem exists_parts {doe : Nat} (inEra : doe < 146097) :
    ∃ century < 4, ∃ fourth < 25, ∃ single < 4, ∃ doy ≤ 365,
      doe = 36524 * century + 1461 * fourth + 365 * single + doy ∧
        (doy = 365 → single = 3 ∧ (fourth = 24 → century = 3)) := by
  refine ⟨min (doe / 36524) 3, by omega,
    min ((doe - 36524 * min (doe / 36524) 3) / 1461) 24, by omega, ?_⟩
  generalize inCentury : doe - 36524 * min (doe / 36524) 3 = rest
  generalize inFourth : rest - 1461 * min (rest / 1461) 24 = last
  exact ⟨min (last / 365) 3, by omega, last - 365 * min (last / 365) 3, by omega, by omega,
    by omega⟩

/-- The quotients find the year of the era that begins in March. No subtraction of them goes
below zero. -/
theorem yearOfEra_spec {doe century fourth single doy : Nat} (inEra : fourth < 25)
    (inFourth : single < 4) (inYear : doy ≤ 365)
    (parts : doe = 36524 * century + 1461 * fourth + 365 * single + doy) (inCentury : century < 4)
    (last : doy = 365 → single = 3 ∧ (fourth = 24 → century = 3)) :
    (doe - doe / 1460 + doe / 36524 - doe / 146096) / 365 = 100 * century + 4 * fourth + single ∧
      doe / 146096 ≤ doe - doe / 1460 + doe / 36524 := by
  have fours : doe / 1460 = 25 * century + fourth +
      (24 * century + fourth + 365 * single + doy) / 1460 := by omega
  have hundreds : doe / 36524 = century + (1461 * fourth + 365 * single + doy) / 36524 := by omega
  have eras : (1461 * fourth + 365 * single + doy) / 36524 = doe / 146096 := by omega
  rw [fours, hundreds, eras]
  constructor
  · omega
  · omega

/-- The first of March of a year. -/
theorem yearStart_march (year : Nat) :
    yearStart (year + 1) = 365 * year + year / 4 - year / 100 + year / 400 + 366 := by
  unfold yearStart
  omega

/-- From March on, the months begin where the quotients say. -/
theorem monthStart_march (year : Nat) {mp : Nat} (below : mp < 10) :
    monthStart year (mp + 2) + 306 = yearLength year + (153 * mp + 2) / 5 ∧
      monthLength year (mp + 2) + (153 * mp + 2) / 5 = (153 * (mp + 1) + 2) / 5 := by
  interval_cases mp <;> simp only [monthStart, monthLength, yearLength] <;>
    cases Calendar.isLeap year <;> decide

/-- The date of a day of a year that begins in March, by the days before that year. -/
theorem fields_of_march {days year doy mp : Nat} (inYear : doy ≤ 365)
    (last : doy = 365 → Calendar.isLeap (year + 1) = true) (month : mp = (5 * doy + 2) / 153)
    (number : 365 * year + year / 4 - year / 100 + year / 400 + doy = days + 719468) :
    (Date.next^[days] epoch).day = doy - (153 * mp + 2) / 5 + 1 ∧
      (Date.next^[days] epoch).month + 1 = (if mp < 10 then mp + 3 else mp - 9) ∧
      (Date.next^[days] epoch).year =
        if (if mp < 10 then mp + 3 else mp - 9) ≤ 2 then year + 1 else year := by
  have march := yearStart_march year
  rcases (by omega : mp < 10 ∨ mp = 10 ∨ mp = 11) with spring | january | february
  · obtain ⟨starts, ends⟩ := monthStart_march year spring
    have following := yearStart_succ year
    have inside : doy - (153 * mp + 2) / 5 + 1 ≤ monthLength year (mp + 2) := by omega
    have ordinal : yearStart year + monthStart year (mp + 2) +
        (doy - (153 * mp + 2) / 5 + 1 - 1) = 719528 + days := by omega
    have below : mp + 2 < 12 := by omega
    rw [fields_of_ordinal below (Nat.succ_pos _) inside ordinal, if_pos spring, if_neg (by omega)]
    exact ⟨rfl, rfl, rfl⟩
  · have inside : doy - (153 * mp + 2) / 5 + 1 ≤ monthLength (year + 1) 0 := by
      rw [monthLength, if_neg Nat.zero_ne_one, if_neg (by decide)]
      omega
    have ordinal : yearStart (year + 1) + monthStart (year + 1) 0 +
        (doy - (153 * mp + 2) / 5 + 1 - 1) = 719528 + days := by
      rw [monthStart]
      omega
    have first : (if mp < 10 then mp + 3 else mp - 9) = 1 := by rw [january, if_neg (by decide)]
    rw [fields_of_ordinal (Nat.succ_pos _) (Nat.succ_pos _) inside ordinal, first]
    exact ⟨rfl, rfl, rfl⟩
  · have inside : doy - (153 * mp + 2) / 5 + 1 ≤ monthLength (year + 1) 1 := by
      rw [monthLength, if_pos rfl]
      by_cases leap : Calendar.isLeap (year + 1) = true
      · rw [if_pos leap]
        omega
      · rw [if_neg leap]
        have short : doy ≠ 365 := fun long => leap (last long)
        omega
    have ordinal : yearStart (year + 1) + monthStart (year + 1) 1 +
        (doy - (153 * mp + 2) / 5 + 1 - 1) = 719528 + days := by
      have days : monthLength (year + 1) 0 = 31 := rfl
      rw [monthStart, monthStart, days]
      omega
    have second : (if mp < 10 then mp + 3 else mp - 9) = 2 := by rw [february, if_neg (by decide)]
    rw [fields_of_ordinal (by decide) (Nat.succ_pos _) inside ordinal, second]
    exact ⟨rfl, rfl, rfl⟩

theorem eraRest (number : Nat) :
    (((number : Int) - (number / 146097 : Nat) * 146097) % 2 ^ 64).toNat = number % 146097 := by
  have rest : (number : Int) - (number / 146097 : Nat) * 146097 = (number % 146097 : Nat) := by
    omega
  have small : ((number % 146097 : Nat) : Int) < 2 ^ 64 := by omega
  rw [rest, Int.emod_eq_of_lt (Int.natCast_nonneg _) small, Int.toNat_natCast]

theorem isLeap_eq_true_iff (year : Nat) :
    Calendar.isLeap year = true ↔ year % 4 = 0 ∧ (year % 100 ≠ 0 ∨ year % 400 = 0) := by
  rw [Calendar.isLeap, Bool.and_eq_true, Bool.or_eq_true, beq_iff_eq, bne_iff_ne, beq_iff_eq]

/-- The year of a day of an era, counted from March, and the days in that year. -/
theorem eraYear_spec {doe : Nat} (inEra : doe < 146097) :
    ∃ yoe doy, (doe - doe / 1460 + doe / 36524 - doe / 146096) / 365 = yoe ∧
      doe - (365 * yoe + yoe / 4 - yoe / 100) = doy ∧ doy ≤ 365 ∧
      365 * yoe + yoe / 4 - yoe / 100 + doy = doe ∧
      (doy = 365 → (yoe + 1) % 4 = 0 ∧ ((yoe + 1) % 100 ≠ 0 ∨ (yoe + 1) % 400 = 0)) ∧
      yoe < 400 := by
  obtain ⟨century, inEra, fourth, inCentury, single, inFourth, doy, inYear, parts, last⟩ :=
    exists_parts inEra
  have fours : (100 * century + 4 * fourth + single) / 4 = 25 * century + fourth := by omega
  have hundreds : (100 * century + 4 * fourth + single) / 100 = century := by omega
  refine ⟨100 * century + 4 * fourth + single, doy,
    (yearOfEra_spec inCentury inFourth inYear parts inEra last).1, ?_, inYear, ?_, ?_, by omega⟩
  · rw [fours, hundreds]
    omega
  · rw [fours, hundreds]
    omega
  · intro long
    obtain ⟨three, final⟩ := last long
    rw [three]
    omega

/-- Every era has as many leap years. -/
theorem marchStart_era (eras : Nat) {yoe : Nat} (inEra : yoe < 400) :
    365 * (yoe + eras * 400) + (yoe + eras * 400) / 4 - (yoe + eras * 400) / 100 +
        (yoe + eras * 400) / 400 =
      146097 * eras + (365 * yoe + yoe / 4 - yoe / 100) := by
  have fours : (yoe + eras * 400) / 4 = yoe / 4 + 100 * eras := by omega
  have hundreds : (yoe + eras * 400) / 100 = yoe / 100 + 4 * eras := by omega
  have whole : (yoe + eras * 400) / 400 = eras := by omega
  rw [fours, hundreds, whole]
  omega

/-- The quotients find the date. -/
theorem civilFromDays_spec (days : Nat) :
    civilFromDays days = (((Date.next^[days] epoch).year : Int),
      (Date.next^[days] epoch).month + 1, (Date.next^[days] epoch).day) := by
  have shifted : (days : Int) + 719468 = ((days + 719468 : Nat) : Int) := by push_cast; rfl
  have era : ((days + 719468 : Nat) : Int).tdiv 146097 = ((days + 719468) / 146097 : Nat) :=
    Int.ofNat_tdiv _ _
  obtain ⟨yoe, doy, yearFound, dayFound, inYear, parts, last, inEra⟩ :=
    eraYear_spec (Nat.mod_lt (days + 719468) (Nat.succ_pos 146096))
  simp only [civilFromDays, shifted, if_pos (Int.natCast_nonneg _), era, eraRest, yearFound,
    dayFound]
  have number := marchStart_era ((days + 719468) / 146097) inEra
  have total : 365 * (yoe + (days + 719468) / 146097 * 400) +
      (yoe + (days + 719468) / 146097 * 400) / 4 - (yoe + (days + 719468) / 146097 * 400) / 100 +
      (yoe + (days + 719468) / 146097 * 400) / 400 + doy = days + 719468 := by
    rw [number, Nat.add_assoc, parts, Nat.div_add_mod]
  have leap : doy = 365 →
      Calendar.isLeap (yoe + (days + 719468) / 146097 * 400 + 1) = true := by
    intro long
    have inLast := last long
    rw [isLeap_eq_true_iff]
    generalize (days + 719468) / 146097 = eras
    omega
  obtain ⟨day, month, year⟩ := fields_of_march inYear leap rfl total
  have shortMonth : (Date.next^[days] epoch).month + 1 < 2 ^ 32 :=
    lt_trans (Nat.succ_lt_succ (Date.next^[days] epoch).month_lt) (by decide)
  have shortDay : (Date.next^[days] epoch).day < 2 ^ 32 :=
    ((Date.next^[days] epoch).day_le.trans (HttpDate.monthLength_le _ _)).trans_lt (by decide)
  rw [← month] at year ⊢
  rw [← day, Nat.mod_eq_of_lt shortMonth, Nat.mod_eq_of_lt shortDay, year]
  congr 1
  split
  · push_cast
    rfl
  · push_cast
    rfl

/-! ### The texts -/

theorem toList_formatHttpDate (seconds : Nat) :
    (formatHttpDate seconds).toList = HttpDate.print (moment seconds) := by
  obtain ⟨rest, years, months⟩ := loops_spec (seconds / 86400)
  have weekday : ((seconds : Int) % (86400 * 7) / 86400).toNat = seconds / 86400 % 7 := by omega
  have hour : ((seconds : Int) % 86400).tdiv 3600 = (moment seconds).hour := by
    rw [Int.tdiv_eq_ediv_of_nonneg (Int.emod_nonneg _ (by decide))]
    rfl
  have minute : ((seconds : Int) % 86400 % 3600).tdiv 60 = (moment seconds).minute := by
    rw [Int.tdiv_eq_ediv_of_nonneg (Int.emod_nonneg _ (by decide)),
      Int.emod_emod_of_dvd _ (by decide)]
    rfl
  have second : (seconds : Int) % 86400 % 60 = (moment seconds).second := by
    rw [Int.emod_emod_of_dvd _ (by decide)]
    rfl
  have days : (seconds : Int) / 86400 = (seconds / 86400 : Nat) := rfl
  simp only [formatHttpDate, days, years, months, weekday, hour, minute, second,
    Int.sub_add_cancel]
  exact toList_dateText (moment seconds) (toList_wdays _)
    (toList_months (moment seconds).date.month_lt)

theorem toList_imfFixdate (seconds : Nat) :
    (imfFixdate seconds).toList = HttpDate.print (moment seconds) := by
  have weekday : (((seconds / 86400 : Nat) + 4 : Int) % 7).toNat = (seconds / 86400 + 4) % 7 := by
    omega
  have minute : seconds % 86400 % 3600 / 60 = (moment seconds).minute := by
    rw [Nat.mod_mod_of_dvd _ (by decide)]
    rfl
  have second : seconds % 86400 % 60 = (moment seconds).second :=
    Nat.mod_mod_of_dvd _ (by decide)
  simp only [imfFixdate, civilFromDays_spec, weekday, minute, second, Nat.add_sub_cancel]
  exact toList_dateText (moment seconds) (toList_weekdays _)
    (toList_months (moment seconds).date.month_lt)

/-- The seconds before the year 10000. -/
theorem year_le_iff (seconds : Nat) :
    (moment seconds).date.year ≤ 9999 ↔ seconds < 253402300800 := by
  have start : yearStart 10000 = 3652425 := by decide
  rw [← Nat.lt_succ_iff, moment, Date.year_lt_iff, Date.ordinal_iterate_next, ordinal_epoch, start]
  omega

/-- Both printers print the weekday, the date and the time of a moment in the form of HTTP, and a
reader of that form finds the moment again while years have four digits. -/
theorem httpDates_agree (seconds : Nat) :
    (formatHttpDate seconds).toList = HttpDate.print (moment seconds) ∧
      imfFixdate seconds = formatHttpDate seconds ∧
      ((moment seconds).date.year ≤ 9999 →
        (HttpDate.parse (formatHttpDate seconds).toList).map Moment.seconds =
          some (seconds : Int)) := by
  refine ⟨toList_formatHttpDate seconds, ?_, fun fits => ?_⟩
  · refine String.toList_injective ?_
    rw [toList_imfFixdate, toList_formatHttpDate]
  · rw [toList_formatHttpDate, HttpDate.parse_print _ fits, Option.map_some, seconds_moment]

theorem httpDates_agree_1994 :
    (HttpDate.parse (formatHttpDate (784111777 : Nat)).toList).map Moment.seconds =
      some (784111777 : Nat) :=
  (httpDates_agree 784111777).2.2 ((year_le_iff _).mpr (by decide))

example : imfFixdate 784111777 = "Sun, 06 Nov 1994 08:49:37 GMT" := by decide

end Bagel
