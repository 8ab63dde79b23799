import TextTags.Time.Moment

/-!
# Date patterns

A pattern is text with percent signs, each followed by a letter for a part of a time. A number may
have its padding chosen between the two. A pattern with an unknown letter is no pattern at all.
-/

namespace TextTags

open Text Number

namespace Pattern

/-- How a number is brought to its width. -/
inductive Padding
  | bare | zeros | spaces
deriving DecidableEq

/-- The numbers a pattern can show. -/
inductive Part
  | year | century | yearOfCentury | isoYear | isoYearOfCentury | quarter | month | day
  | weekFromSunday | weekFromMonday | isoWeek | sinceSunday | isoWeekday | ordinal
  | hour | hour12 | minute | second | nanosecond | timestamp
deriving DecidableEq

/-- One item of a pattern. -/
inductive Item
  | text (cs : List Char)
  | number (part : Part) (padding : Padding)
  | weekday (short : Bool)
  | monthName (short : Bool)
  | halfOfDay (capital : Bool)
  | fraction (point : Bool) (places : Nat)
  | shortFraction
  | stamp
  /-- An item that is read from a pattern and cannot be shown. -/
  | unprintable
deriving DecidableEq

/-- Items between which the same character stands. -/
def separated (mark : Char) (items : List Item) : List Item :=
  items.intersperse (.text [mark])

/-- Hours, minutes and seconds. -/
def clock (hours : Part) : List Item :=
  separated ':' [.number hours .zeros, .number .minute .zeros, .number .second .zeros]

/-- Month, day and year of the century. -/
def slashed : List Item :=
  separated '/' [.number .month .zeros, .number .day .zeros, .number .yearOfCentury .zeros]

/-- The number that a letter shows, with its usual padding. -/
def numberOf? : Char → Option (Part × Padding)
  | 'Y' => some (.year, .zeros)
  | 'C' => some (.century, .zeros)
  | 'y' => some (.yearOfCentury, .zeros)
  | 'G' => some (.isoYear, .zeros)
  | 'g' => some (.isoYearOfCentury, .zeros)
  | 'q' => some (.quarter, .bare)
  | 'm' => some (.month, .zeros)
  | 'd' => some (.day, .zeros)
  | 'e' => some (.day, .spaces)
  | 'U' => some (.weekFromSunday, .zeros)
  | 'W' => some (.weekFromMonday, .zeros)
  | 'V' => some (.isoWeek, .zeros)
  | 'w' => some (.sinceSunday, .bare)
  | 'u' => some (.isoWeekday, .bare)
  | 'j' => some (.ordinal, .zeros)
  | 'H' => some (.hour, .zeros)
  | 'k' => some (.hour, .spaces)
  | 'I' => some (.hour12, .zeros)
  | 'l' => some (.hour12, .spaces)
  | 'M' => some (.minute, .zeros)
  | 'S' => some (.second, .zeros)
  | 'f' => some (.nanosecond, .zeros)
  | 's' => some (.timestamp, .bare)
  | _ => none

/-- The items for a letter that shows no number. -/
def wordsOf? : Char → Option (List Item)
  | 'A' => some [.weekday false]
  | 'a' => some [.weekday true]
  | 'B' => some [.monthName false]
  | 'b' => some [.monthName true]
  | 'h' => some [.monthName true]
  | 'P' => some [.halfOfDay false]
  | 'p' => some [.halfOfDay true]
  | 'D' => some slashed
  | 'x' => some slashed
  | 'F' => some (separated '-'
      [.number .year .zeros, .number .month .zeros, .number .day .zeros])
  | 'v' => some (separated '-' [.number .day .spaces, .monthName true, .number .year .zeros])
  | 'R' => some (separated ':' [.number .hour .zeros, .number .minute .zeros])
  | 'T' => some (clock .hour)
  | 'X' => some (clock .hour)
  | 'r' => some (clock .hour12 ++ [.text [' '], .halfOfDay true])
  | 'c' => some ([.weekday true, .text [' '], .monthName true, .text [' '],
      .number .day .spaces, .text [' ']] ++ clock .hour ++ [.text [' '], .number .year .zeros])
  | 'Z' => some [.text ['U', 'T', 'C']]
  | 'z' => some [.text ['+', '0', '0', '0', '0']]
  | '+' => some [.stamp]
  | 'n' => some [.text ['\n']]
  | 't' => some [.text ['\t']]
  | '%' => some [.text ['%']]
  | _ => none

/-- The padding that a character after the percent sign chooses. -/
def paddingOf? : Char → Option Padding
  | '-' => some .bare
  | '0' => some .zeros
  | '_' => some .spaces
  | _ => none

/-- Reads what follows a percent sign when it has more than one character and shows no number. -/
def longDirective? : List Char → Option (List Item × List Char)
  | '.' :: 'f' :: rest => some ([.shortFraction], rest)
  | '.' :: '3' :: 'f' :: rest => some ([.fraction true 3], rest)
  | '.' :: '6' :: 'f' :: rest => some ([.fraction true 6], rest)
  | '.' :: '9' :: 'f' :: rest => some ([.fraction true 9], rest)
  | '3' :: 'f' :: rest => some ([.fraction false 3], rest)
  | '6' :: 'f' :: rest => some ([.fraction false 6], rest)
  | '9' :: 'f' :: rest => some ([.fraction false 9], rest)
  | ':' :: ':' :: ':' :: 'z' :: rest => some ([.text ['+', '0', '0']], rest)
  | ':' :: ':' :: 'z' :: rest => some ([.text ['+', '0', '0', ':', '0', '0', ':', '0', '0']], rest)
  | ':' :: 'z' :: rest => some ([.text ['+', '0', '0', ':', '0', '0']], rest)
  | '#' :: 'z' :: rest => some ([.unprintable], rest)
  | _ => none

/-- Reads what follows a percent sign. A chosen padding is for a number alone. -/
def directive? : List Char → Option (List Item × List Char)
  | [] => none
  | c :: rest =>
    match paddingOf? c with
    | some padding =>
      match rest with
      | [] => none
      | d :: rest => (numberOf? d).map fun (part, _) => ([.number part padding], rest)
    | none =>
      match numberOf? c with
      | some (part, padding) => some ([.number part padding], rest)
      | none =>
        match wordsOf? c with
        | some items => some (items, rest)
        | none => longDirective? (c :: rest)

private theorem length_longDirective? {cs rest : List Char} {items : List Item}
    (h : longDirective? cs = some (items, rest)) : rest.length < cs.length := by
  unfold longDirective? at h
  split at h <;> simp_all <;> omega

private theorem length_directive? {cs rest : List Char} {items : List Item}
    (h : directive? cs = some (items, rest)) : rest.length < cs.length := by
  unfold directive? at h
  split at h
  · simp at h
  · split at h
    · split at h
      · simp at h
      · simp only [Option.map_eq_some_iff, Prod.mk.injEq] at h
        obtain ⟨_, _, _, rfl⟩ := h
        simp only [List.length_cons]; omega
    · split at h
      · simp_all
      · split at h
        · simp_all
        · exact length_longDirective? h

/-- Reads a pattern. -/
def parse? : List Char → Option (List Item)
  | [] => some []
  | c :: rest =>
    if c = '%' then
      match _ : directive? rest with
      | some (items, after) => (parse? after).map (items ++ ·)
      | none => none
    else (parse? rest).map (.text [c] :: ·)
termination_by cs => cs.length
decreasing_by
  · have := length_directive? ‹directive? rest = some (items, after)›
    simp only [List.length_cons]; omega
  · simp

/-! ## Showing a time -/

/-- A number of at most two digits. A larger one, below 256, keeps its last digit and has its tens
as one character counted from `0`. -/
def twoPlaces (n : Nat) (padding : Padding) : List Char :=
  let tens := n / 10
  let first := match padding with
    | .bare => if tens = 0 then [] else [Char.ofNat ('0'.toNat + tens)]
    | .spaces => if tens = 0 then [' '] else [Char.ofNat ('0'.toNat + tens)]
    | .zeros => [Char.ofNat ('0'.toNat + tens)]
  first ++ [Char.ofNat ('0'.toNat + n % 10)]

/-- A number brought to a width, which includes the sign it may have. -/
def wide (width : Nat) (sign : List Char) (n : Nat) : Padding → List Char
  | .bare => sign ++ natDigits n
  | .zeros => sign ++ padStart (width - sign.length) '0' (natDigits n)
  | .spaces => padStart width ' ' (sign ++ natDigits n)

/-- A year; one outside of four digits has its sign. -/
def yearPlaces (year : Int) (padding : Padding) : List Char :=
  if 0 ≤ year ∧ year < 10000 then wide 4 [] year.natAbs padding
  else wide 5 (if year < 0 then ['-'] else ['+']) year.natAbs padding

/-- The hundreds of a year as one byte. -/
def centuryByte (year : Int) : Nat := (year / 100 % 256).toNat

/-- The hour on a clock with twelve hours. -/
def hourOfTwelve (hour : Nat) : Nat := if hour % 12 = 0 then 12 else hour % 12

/-- A number of a time. -/
def partChars (c : CivilTime) (part : Part) (padding : Padding) : List Char :=
  match part with
  | .year => yearPlaces c.date.year padding
  | .century => twoPlaces (centuryByte c.date.year) padding
  | .yearOfCentury => twoPlaces (c.date.year % 100).toNat padding
  | .isoYear => yearPlaces c.date.isoWeek.1 padding
  | .isoYearOfCentury => twoPlaces (c.date.isoWeek.1 % 100).toNat padding
  | .quarter => natDigits ((c.date.month - 1) / 3 + 1)
  | .month => twoPlaces c.date.month padding
  | .day => twoPlaces c.date.day padding
  | .weekFromSunday => twoPlaces c.date.weekFromSunday.toNat padding
  | .weekFromMonday => twoPlaces c.date.weekFromMonday.toNat padding
  | .isoWeek => twoPlaces c.date.isoWeek.2.toNat padding
  | .sinceSunday => natDigits c.date.sinceSunday.toNat
  | .isoWeekday => natDigits (c.date.sinceMonday + 1).toNat
  | .ordinal => wide 3 [] c.date.ordinal.toNat padding
  | .hour => twoPlaces c.hour padding
  | .hour12 => twoPlaces (hourOfTwelve c.hour) padding
  | .minute => twoPlaces c.minute padding
  | .second => twoPlaces c.second padding
  | .nanosecond => wide 9 [] (c.milli * 1000000) padding
  | .timestamp =>
    let seconds := c.toMillis / 1000
    wide 9 (if seconds < 0 then ['-'] else []) seconds.natAbs padding

/-- The fraction of a second to a number of places, of which only the first three can differ from
zero. -/
def fractionChars (c : CivilTime) (places : Nat) : List Char :=
  (padStart 3 '0' (natDigits c.milli) ++ List.replicate 6 '0').take places

/-- The fraction of a second after a point, if there is one. -/
def shortFractionChars (c : CivilTime) : List Char :=
  if c.milli = 0 then [] else '.' :: fractionChars c 3

/-- A name, cut to three letters where it is wanted short. -/
def nameChars (names : List String) (index : Nat) (short : Bool) : List Char :=
  let name := (names.getD index "").toList
  if short then name.take 3 else name

/-- The half of the day. -/
def halfChars (c : CivilTime) (capital : Bool) : List Char :=
  match decide (c.hour < 12), capital with
  | true, true => ['A', 'M']
  | true, false => ['a', 'm']
  | false, true => ['P', 'M']
  | false, false => ['p', 'm']

/-- One item for a time; none for an item that cannot be shown. -/
def Item.show? (c : CivilTime) : Item → Option (List Char)
  | .text cs => some cs
  | .number part padding => some (partChars c part padding)
  | .weekday short => some (nameChars weekdayNames c.date.sinceMonday.toNat short)
  | .monthName short => some (nameChars monthNames (c.date.month - 1) short)
  | .halfOfDay capital => some (halfChars c capital)
  | .fraction point places => some ((if point then ['.'] else []) ++ fractionChars c places)
  | .shortFraction => some (shortFractionChars c)
  | .stamp =>
    some (c.dateChars ++ 'T' :: c.clockChars ++ shortFractionChars c ++
      ['+', '0', '0', ':', '0', '0'])
  | .unprintable => none

end Pattern

/-- What comes of showing a time by a pattern. -/
inductive Formatted
  | text (s : String)
  /-- The pattern is none, or the time lies outside the range of the calendar. -/
  | rejected
  /-- The pattern holds an item that cannot be shown. -/
  | unprintable
deriving DecidableEq

/-- Shows a time by a pattern. -/
def Time.format (t : Time) (pattern : String) : Formatted :=
  match Pattern.parse? pattern.toList, t.civil? with
  | some items, some c =>
    match items.mapM (Pattern.Item.show? c) with
    | some pieces => .text (.ofList pieces.flatten)
    | none => .unprintable
  | _, _ => .rejected

end TextTags
