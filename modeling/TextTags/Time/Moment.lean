import TextTags.Duration
import TextTags.Time.Calendar

/-!
# Points in time

A time is a number of milliseconds from the start of 1970 in UTC. Inside the range of the calendar
it is written as an RFC 3339 stamp, outside as the number alone; both forms are read back.
-/

namespace TextTags

open Text Number

/-- A point in time. -/
structure Time where
  millis : Int64
deriving DecidableEq

/-- A time of the calendar: a date with a time of day. -/
structure CivilTime where
  date : Date
  hour : Nat
  minute : Nat
  second : Nat
  milli : Nat
deriving DecidableEq

/-- The milliseconds of a day. -/
def millisPerDay : Int := 86400000

namespace CivilTime

/-- The time of the calendar a number of milliseconds after the start of 1970. -/
def ofMillis (millis : Int) : CivilTime :=
  let inDay := (millis % millisPerDay).toNat
  { date := Date.ofDays (millis / millisPerDay)
    hour := inDay / 3600000
    minute := inDay / 60000 % 60
    second := inDay / 1000 % 60
    milli := inDay % 1000 }

/-- The milliseconds from the start of 1970. -/
def toMillis (c : CivilTime) : Int :=
  c.date.toDays * millisPerDay +
    (c.hour * 3600000 + c.minute * 60000 + c.second * 1000 + c.milli : Nat)

/-- A number with zeros before it up to two digits. -/
def twoDigits (n : Nat) : List Char := padStart 2 '0' (natDigits n)

/-- A year of four digits; outside of them with its sign and at least four. -/
def yearChars (year : Int) : List Char :=
  let digits := padStart 4 '0' (natDigits year.natAbs)
  if 0 ≤ year ∧ year ≤ 9999 then digits
  else (if year < 0 then '-' else '+') :: digits

/-- The date with dashes. -/
def dateChars (c : CivilTime) : List Char :=
  yearChars c.date.year ++ '-' :: twoDigits c.date.month ++ '-' :: twoDigits c.date.day

/-- The time of day to the second, with colons. -/
def clockChars (c : CivilTime) : List Char :=
  twoDigits c.hour ++ ':' :: twoDigits c.minute ++ ':' :: twoDigits c.second

/-- The RFC 3339 stamp in UTC, to the millisecond. -/
def stamp (c : CivilTime) : List Char :=
  c.dateChars ++ 'T' :: c.clockChars ++ '.' :: padStart 3 '0' (natDigits c.milli) ++ ['Z']

end CivilTime

/-! ## Reading RFC 3339 stamps -/

namespace Stamp

/-- Reads exactly `count` digits. -/
def digits? (count : Nat) (cs : List Char) : Option (Nat × List Char) :=
  let head := cs.take count
  if head.length = count ∧ head.all isAsciiDigit then some (digitsValue head, cs.drop count)
  else none

/-- Reads one given character. -/
def mark? (mark : Char) : List Char → Option (List Char)
  | c :: rest => if c = mark then some rest else none
  | [] => none

/-- Reads the milliseconds after a point. Further digits are passed over. -/
def millis? : List Char → Option (Nat × List Char)
  | '.' :: rest =>
    let digits := rest.takeWhile isAsciiDigit
    if digits.isEmpty then none
    else some (digitsValue ((digits ++ ['0', '0']).take 3), rest.dropWhile isAsciiDigit)
  | cs => some (0, cs)

/-- Reads the offset from UTC that ends a stamp, in minutes; it is less than a day. -/
def offset? : List Char → Option Int
  | [] => none
  | mark :: rest =>
    if (mark = 'Z' ∨ mark = 'z') ∧ rest.isEmpty then some 0
    else if mark = '+' ∨ mark = '-' ∨ mark = '−' then do
      let (hours, rest) ← digits? 2 rest
      let rest ← mark? ':' rest
      let (minutes, rest) ← digits? 2 rest
      if rest.isEmpty ∧ minutes < 60 ∧ hours < 24 then
        some (signed (mark ≠ '+') (hours * 60 + minutes))
      else none
    else none

/-- Reads a date and a time of day with its offset, as milliseconds from the start of 1970. A second
60 is the first of the next minute. -/
def read? (cs : List Char) : Option Int := do
  let (year, cs) ← digits? 4 cs
  let cs ← mark? '-' cs
  let (month, cs) ← digits? 2 cs
  let cs ← mark? '-' cs
  let (day, cs) ← digits? 2 cs
  let cs ← (mark? 'T' cs).or ((mark? 't' cs).or (mark? ' ' cs))
  let (hour, cs) ← digits? 2 cs
  let cs ← mark? ':' cs
  let (minute, cs) ← digits? 2 cs
  let cs ← mark? ':' cs
  let (second, cs) ← digits? 2 cs
  let (milli, cs) ← millis? cs
  let offset ← offset? cs
  let civil : CivilTime := ⟨⟨year, month, day⟩, hour, minute, second, milli⟩
  if civil.date.isValid ∧ hour < 24 ∧ minute < 60 ∧ second ≤ 60 then
    some (civil.toMillis - offset * 60000)
  else none

end Stamp

namespace Time

/-- The first millisecond of the calendar's range. -/
def firstMillis : Int := -8334601228800000

/-- The last millisecond of the calendar's range. -/
def lastMillis : Int := 8210266876799999

/-- The time of the calendar, for a time inside its range. -/
def civil? (t : Time) : Option CivilTime :=
  let millis := t.millis.toInt
  if firstMillis ≤ millis ∧ millis ≤ lastMillis then some (CivilTime.ofMillis millis) else none

/-- The mark before the identity of a time. -/
def mark : List Char := ['t', 'i', 'm', 'e', '@']

/-- Reads an RFC 3339 stamp or a number of milliseconds, after the mark of a time or without it. -/
def ofChars? (cs : List Char) : Option Time :=
  let trimmed := trim cs
  let body := (dropStart? mark trimmed).getD trimmed
  match Stamp.read? body with
  | some millis => some ⟨Int64.ofInt millis⟩
  | none => (int64? body).map fun millis => ⟨Int64.ofInt millis⟩

/-- Reads an RFC 3339 stamp or a number of milliseconds, after the mark of a time or without it. -/
def ofText? (s : String) : Option Time := ofChars? s.toList

/-- The identity: the stamp of the time, or its milliseconds outside the range of the calendar. -/
def identityChars (t : Time) : List Char :=
  match t.civil? with
  | some c => mark ++ c.stamp
  | none => mark ++ intDigits t.millis.toInt

/-- The identity, with the date and the time of day after it where there are some. -/
def debugChars (t : Time) : List Char :=
  match t.civil? with
  | some c =>
    t.identityChars ++ ' ' :: '(' :: c.dateChars ++ ' ' :: c.clockChars ++ [' ', 'U', 'T', 'C', ')']
  | none => t.identityChars

/-- The time a duration later, held within 64 bits. -/
def plus (t : Time) (d : Duration) : Time := ⟨Int64.ofInt (clampInt64 (t.millis.toInt + d.millis))⟩

/-- The duration from another time to this one, unless its milliseconds exceed 64 bits. -/
def since? (t other : Time) : Option Duration :=
  let millis := t.millis.toInt - other.millis.toInt
  if fitsInt64 millis then some ⟨ofInt millis / 1000.0⟩ else none

end Time

end TextTags
