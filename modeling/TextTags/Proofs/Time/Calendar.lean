import Mathlib.Tactic.IntervalCases
import TextTags.Time.Calendar

/-!
# Dates and days

Each number of days is that of one valid date, and the days of this date are the number again. A
year is counted from March, so that it has 365 days, and one more where the year after it is a leap
year.
-/

namespace TextTags.Date

/-- The days from 1 March of the year 0 to 1 March of a year. -/
def daysToMarch (year : Int) : Int := year * 365 + year / 4 - year / 100 + year / 400

/-- The date of a day of a year that begins in March. -/
def ofMarch (year : Int) (inYear : Nat) : Date :=
  let march := (5 * inYear + 2) / 153
  let month := if march < 10 then march + 3 else march - 9
  { year := if month ≤ 2 then year + 1 else year
    month
    day := inYear - (153 * march + 2) / 5 + 1 }

/-- Days taken in units of equal length, the last of `most + 1` of them being longer. -/
theorem min_div_parts (n unit most : Nat) (pos : 0 < unit) :
    min (n / unit) most * unit ≤ n ∧
      (min (n / unit) most < most → n - min (n / unit) most * unit < unit) := by
  have whole := Nat.div_mul_le_self n unit
  have rest := Nat.lt_div_mul_add pos (a := n)
  have least := Nat.mul_le_mul_right unit (Nat.min_le_left (n / unit) most)
  refine ⟨Nat.le_trans least whole, fun below ↦ ?_⟩
  have here : min (n / unit) most = n / unit := by omega
  rw [here]
  omega

/-- The year of a cycle of 400 years, and the day of that year, on a day of the cycle. -/
def cycleParts (n : Nat) : Nat × Nat :=
  let century := min (n / 36524) 3
  let inCentury := n - century * 36524
  let four := inCentury / 1461
  let inFour := inCentury - four * 1461
  let one := min (inFour / 365) 3
  (century * 100 + four * 4 + one, inFour - one * 365)

private theorem ofDays_eq (days : Int) : ofDays days =
    ofMarch ((days + daysToEpoch) / 146097 * 400 +
      (cycleParts ((days + daysToEpoch) % 146097).toNat).1)
      (cycleParts ((days + daysToEpoch) % 146097).toNat).2 := rfl

/-- A day of a cycle is that day of its year. The last day of a long year is a leap day, which comes
in the year that begins two months before. -/
theorem cycleParts_spec {n year inYear : Nat} (h : n < 146097)
    (parts : cycleParts n = (year, inYear)) :
    year < 400 ∧ inYear ≤ 365 ∧ year * 365 + year / 4 - year / 100 + inYear = n ∧
      (inYear = 365 → (year + 1) % 4 = 0 ∧ ((year + 1) % 100 ≠ 0 ∨ year + 1 = 400)) := by
  let century := min (n / 36524) 3
  let inCentury := n - century * 36524
  let four := inCentury / 1461
  let inFour := inCentury - four * 1461
  let one := min (inFour / 365) 3
  obtain ⟨centuryLe, centuryLt⟩ := min_div_parts n 36524 3 (by decide)
  have centuries : century ≤ 3 := Nat.min_le_right ..
  obtain ⟨oneLe, oneLt⟩ := min_div_parts inFour 365 3 (by decide)
  have ones : one ≤ 3 := Nat.min_le_right ..
  have fourLe : four * 1461 ≤ inCentury := Nat.div_mul_le_self ..
  have fourLt : inCentury - four * 1461 < 1461 := by omega
  have years : century * 100 + four * 4 + one = year := congrArg Prod.fst parts
  have days : inFour - one * 365 = inYear := congrArg Prod.snd parts
  change century * 36524 ≤ n at centuryLe
  change century < 3 → inCentury < 36524 at centuryLt
  change one * 365 ≤ inFour at oneLe
  change one < 3 → inFour - one * 365 < 365 at oneLt
  rw [days] at oneLt
  change inFour < 1461 at fourLt
  have inCenturyDays : inCentury + century * 36524 = n := Nat.sub_add_cancel centuryLe
  have inFourDays : inFour + four * 1461 = inCentury := Nat.sub_add_cancel fourLe
  have inYearDays : inYear + one * 365 = inFour := days ▸ Nat.sub_add_cancel oneLe
  clear days
  -- From here on the parts are any numbers with these bounds: `omega` is not to see the divisions
  -- that they come from.
  clear_value one inFour four inCentury century
  have fours : four ≤ 24 := by omega
  have quarters : year / 4 = century * 25 + four := by omega
  have hundreds : year / 100 = century := by omega
  refine ⟨by omega, by omega, by omega, fun last ↦ ?_⟩
  have lastOne : one = 3 := by omega
  have lastFour : four = 24 → century = 3 := by omega
  omega

private theorem daysToMarch_cycle (cycle : Int) {year : Nat} (h : year < 400) :
    daysToMarch (cycle * 400 + year) =
      cycle * 146097 + (year * 365 + year / 4 - year / 100 : Nat) := by
  unfold daysToMarch
  omega

private theorem isLeapYear_cycle (cycle : Int) {year : Nat} (fourth : (year + 1) % 4 = 0)
    (century : (year + 1) % 100 ≠ 0 ∨ year + 1 = 400) : isLeapYear (cycle * 400 + year + 1) := by
  simp only [isLeapYear, Bool.and_eq_true, Bool.or_eq_true, beq_iff_eq, bne_iff_ne]
  omega

/-- A number of days is a year that begins in March and a day of it. -/
theorem exists_ofDays (days : Int) : ∃ (year : Int) (inYear : Nat),
    ofDays days = ofMarch year inYear ∧ days = daysToMarch year + inYear - daysToEpoch ∧
      inYear ≤ 365 ∧ (inYear = 365 → isLeapYear (year + 1)) := by
  have date := ofDays_eq days
  obtain ⟨inCycle, rest⟩ : ∃ n, n = ((days + daysToEpoch) % 146097).toNat := ⟨_, rfl⟩
  have whole : days = (days + daysToEpoch) / 146097 * 146097 + inCycle - daysToEpoch := by omega
  rw [← rest] at date
  obtain ⟨⟨year, inYear⟩, parts⟩ : ∃ parts, cycleParts inCycle = parts := ⟨_, rfl⟩
  obtain ⟨few, short, sum, leap⟩ := cycleParts_spec (by omega) parts
  rw [parts] at date
  refine ⟨_, inYear, date, ?_, short, fun last ↦ ?_⟩
  · rw [daysToMarch_cycle _ few, Int.add_assoc, ← Int.natCast_add, sum]
    exact whole
  · obtain ⟨fourth, century⟩ := leap last
    exact isLeapYear_cycle _ fourth century

/-- The month and the day of the month of a day of a year that begins in March. -/
theorem march_parts {inYear : Nat} (h : inYear ≤ 365) :
    let march := (5 * inYear + 2) / 153
    march ≤ 11 ∧ (153 * march + 2) / 5 ≤ inYear ∧ inYear < (153 * (march + 1) + 2) / 5 := by
  intro march
  omega

/-- The days of a date are counted from March as well. -/
theorem toDays_eq (year : Int) (month day : Nat) :
    (⟨if month ≤ 2 then year + 1 else year, month, day⟩ : Date).toDays =
      daysToMarch year + ((153 * ((month + 9) % 12) + 2) / 5 + day - 1 : Nat) - daysToEpoch := by
  have fromMarch : (if month ≤ 2 then (if month ≤ 2 then year + 1 else year) - 1
      else if month ≤ 2 then year + 1 else year) = year := by
    split <;> omega
  have cycles : year / 400 * 400 + ((year % 400).toNat : Int) = year := by omega
  have inCycle : (year % 400).toNat < 400 := by omega
  have march := daysToMarch_cycle (year / 400) inCycle
  unfold toDays
  dsimp only
  rw [cycles] at march
  rw [fromMarch, march]
  omega

/-- The month that comes a number of months after March. -/
theorem month_of_march {march : Nat} (h : march ≤ 11) :
    ((if march < 10 then march + 3 else march - 9) + 9) % 12 = march := by
  split <;> omega

private theorem toDays_ofMarch (year : Int) {inYear : Nat} (short : inYear ≤ 365) :
    (ofMarch year inYear).toDays = daysToMarch year + inYear - daysToEpoch := by
  obtain ⟨months, first, -⟩ := march_parts short
  have day (before : Nat) (h : before ≤ inYear) : before + (inYear - before + 1) - 1 = inYear := by
    omega
  rw [ofMarch, toDays_eq, month_of_march months, day _ first]

/-- From March to January a month has as many days as lie between its first day and that of the
next. -/
theorem daysInMonth_of_march (year : Int) {march : Nat} (h : march ≤ 10) :
    (153 * march + 2) / 5 + daysInMonth year (if march < 10 then march + 3 else march - 9) =
      (153 * (march + 1) + 2) / 5 := by
  interval_cases march <;> rfl

private theorem isValid_ofMarch {year : Int} {inYear : Nat} (short : inYear ≤ 365)
    (leap : inYear = 365 → isLeapYear (year + 1)) : (ofMarch year inYear).isValid := by
  obtain ⟨months, first, last⟩ := march_parts short
  unfold ofMarch isValid
  dsimp only
  generalize (5 * inYear + 2) / 153 = march at *
  simp only [Bool.and_eq_true, decide_eq_true_eq]
  rcases Nat.lt_or_eq_of_le months with other | rfl
  · have days := daysInMonth_of_march (if (if march < 10 then march + 3 else march - 9) ≤ 2 then
      year + 1 else year) (Nat.le_of_lt_succ other)
    refine ⟨⟨⟨?_, ?_⟩, by omega⟩, by omega⟩ <;> split <;> omega
  · refine ⟨⟨⟨by decide, by decide⟩, by omega⟩, ?_⟩
    cases leaps : isLeapYear (year + 1) <;> simp [daysInMonth, leaps] at * <;> omega

/-- The days of the date of a number of days are this number. -/
theorem toDays_ofDays (days : Int) : (ofDays days).toDays = days := by
  obtain ⟨year, inYear, date, whole, short, -⟩ := exists_ofDays days
  rw [date, toDays_ofMarch year short, ← whole]

/-- The date of a number of days is valid. -/
theorem isValid_ofDays (days : Int) : (ofDays days).isValid := by
  obtain ⟨year, inYear, date, -, short, leap⟩ := exists_ofDays days
  rw [date]
  exact isValid_ofMarch short leap

/-- A leap day makes a year that begins in March one day longer. -/
theorem daysToMarch_succ (year : Int) :
    daysToMarch (year + 1) = daysToMarch year + if isLeapYear (year + 1) then 366 else 365 := by
  have leap : isLeapYear (year + 1) ↔
      (year + 1) % 4 = 0 ∧ ((year + 1) % 100 ≠ 0 ∨ (year + 1) % 400 = 0) := by
    simp [isLeapYear]
  have fourth : (year + 1) / 4 = year / 4 + if (year + 1) % 4 = 0 then 1 else 0 := by
    split <;> omega
  have century : (year + 1) / 100 = year / 100 + if (year + 1) % 100 = 0 then 1 else 0 := by
    split <;> omega
  have cycle : (year + 1) / 400 = year / 400 + if (year + 1) % 400 = 0 then 1 else 0 := by
    split <;> omega
  have hundreds : (year + 1) % 400 = 0 → (year + 1) % 100 = 0 := by omega
  have fours : (year + 1) % 100 = 0 → (year + 1) % 4 = 0 := by omega
  unfold daysToMarch
  rw [fourth, century, cycle]
  grind

private theorem daysToMarch_lt {a b : Int} (h : a < b) : daysToMarch a + 365 ≤ daysToMarch b := by
  induction b, h using Int.leInduction with
  | base =>
    rw [daysToMarch_succ]
    split <;> omega
  | succ b _ ih =>
    rw [daysToMarch_succ]
    split <;> omega

/-- The year of a date is at least another exactly where the date is not before that year's first
day. -/
theorem le_year_ofDays_iff (year days : Int) :
    year ≤ (ofDays days).year ↔ (⟨year, 1, 1⟩ : Date).toDays ≤ days := by
  have first : (⟨year, 1, 1⟩ : Date).toDays = daysToMarch (year - 1) + 306 - daysToEpoch := by
    have start := toDays_eq (year - 1) 1 1
    rw [if_pos (by decide), Int.sub_add_cancel] at start
    exact start
  obtain ⟨year', inYear, date, whole, short, leap⟩ := exists_ofDays days
  have next := daysToMarch_succ year'
  have january : (ofDays days).year = if 306 ≤ inYear then year' + 1 else year' := by
    rw [date]
    unfold ofMarch
    dsimp only
    split <;> split <;> omega
  rw [january, first, whole]
  rcases Int.lt_trichotomy (year - 1) year' with before | rfl | after
  · have := daysToMarch_lt before
    split <;> omega
  · split <;> omega
  · have later : daysToMarch (year' + 1) ≤ daysToMarch (year - 1) := by
      rcases Int.lt_or_eq_of_le (Int.add_one_le_of_lt after) with more | same
      · have := daysToMarch_lt more
        omega
      · rw [same]
    have inside : daysToMarch year' + inYear < daysToMarch (year' + 1) := by
      rw [next]
      split
      · omega
      · next other =>
        have := mt leap other
        omega
    split <;> omega

end TextTags.Date
