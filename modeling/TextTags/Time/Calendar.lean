/-!
# The calendar

Dates of the proleptic Gregorian calendar, counted in days from 1 January 1970. Years begin in
March in the computation, so that the leap day is the last of a year; a cycle of 400 years has
146097 days.
-/

namespace TextTags

/-- A day of the calendar. -/
structure Date where
  year : Int
  month : Nat
  day : Nat
deriving DecidableEq

/-- The days from 1 March of the year 0 to 1 January 1970. -/
def daysToEpoch : Int := 719468

/-- Whether a year has 366 days. -/
def isLeapYear (year : Int) : Bool := year % 4 == 0 && (year % 100 != 0 || year % 400 == 0)

/-- The days of a month. -/
def daysInMonth (year : Int) (month : Nat) : Nat :=
  if month = 2 then if isLeapYear year then 29 else 28
  else if month = 4 ∨ month = 6 ∨ month = 9 ∨ month = 11 then 30
  else 31

namespace Date

/-- The date a number of days after 1 January 1970. -/
def ofDays (days : Int) : Date :=
  let shifted := days + daysToEpoch
  let cycle := shifted / 146097
  let inCycle := (shifted % 146097).toNat
  let century := min (inCycle / 36524) 3
  let inCentury := inCycle - century * 36524
  let four := inCentury / 1461
  let inFour := inCentury - four * 1461
  let one := min (inFour / 365) 3
  let inYear := inFour - one * 365
  let march := (5 * inYear + 2) / 153
  let month := if march < 10 then march + 3 else march - 9
  let year : Int := cycle * 400 + (century * 100 + four * 4 + one : Nat)
  { year := if month ≤ 2 then year + 1 else year
    month
    day := inYear - (153 * march + 2) / 5 + 1 }

/-- The days from 1 January 1970 to a date. -/
def toDays (d : Date) : Int :=
  let year := if d.month ≤ 2 then d.year - 1 else d.year
  let inCycle := (year % 400).toNat
  let inYear := (153 * ((d.month + 9) % 12) + 2) / 5 + d.day - 1
  year / 400 * 146097 +
    (inCycle * 365 + inCycle / 4 - inCycle / 100 + inYear : Nat) - daysToEpoch

/-- Whether the month and the day exist. -/
def isValid (d : Date) : Bool :=
  1 ≤ d.month && d.month ≤ 12 && 1 ≤ d.day && d.day ≤ daysInMonth d.year d.month

/-- The day's number in its year, from 1. -/
def ordinal (d : Date) : Int := d.toDays - (⟨d.year, 1, 1⟩ : Date).toDays + 1

/-- The days since Monday. -/
def sinceMonday (d : Date) : Int := (d.toDays + 3) % 7

/-- The days since Sunday. -/
def sinceSunday (d : Date) : Int := (d.toDays + 4) % 7

/-- The number of whole or begun weeks of the year that start on Monday. -/
def weekFromMonday (d : Date) : Int := (d.ordinal - d.sinceMonday + 6) / 7

/-- The number of whole or begun weeks of the year that start on Sunday. -/
def weekFromSunday (d : Date) : Int := (d.ordinal - d.sinceSunday + 6) / 7

/-- The weeks of a year when a week belongs to the year of its Thursday. -/
def isoWeeksIn (year : Int) : Int :=
  let lastDay (y : Int) : Int := (y + y / 4 - y / 100 + y / 400) % 7
  if lastDay year = 4 ∨ lastDay (year - 1) = 3 then 53 else 52

/-- The year and the number of the week when a week belongs to the year of its Thursday. -/
def isoWeek (d : Date) : Int × Int :=
  let week := (d.ordinal - (d.sinceMonday + 1) + 10) / 7
  if week < 1 then (d.year - 1, isoWeeksIn (d.year - 1))
  else if isoWeeksIn d.year < week then (d.year + 1, 1)
  else (d.year, week)

end Date

/-- The names of the months. -/
def monthNames : List String :=
  ["January", "February", "March", "April", "May", "June", "July", "August", "September",
    "October", "November", "December"]

/-- The names of the days of the week, from Monday. -/
def weekdayNames : List String :=
  ["Monday", "Tuesday", "Wednesday", "Thursday", "Friday", "Saturday", "Sunday"]

end TextTags
