import TextTags.Text.Pieces
import TextTags.Number.Draws
import TextTags.Number.Shortest

/-!
# Spans of time

A duration is a number of seconds. It is read from a number with a unit, from one of two words for
no time, or from a range of whole seconds; it is written exactly as its identity and roughly for
people.
-/

namespace TextTags

open Text Number

/-- A span of time. -/
structure Duration where
  seconds : Float

namespace Duration

/-- The seconds of a minute. -/
def minute : Float := 60.0
/-- The seconds of an hour. -/
def hour : Float := 3600.0
/-- The seconds of a day. -/
def day : Float := 86400.0
/-- The seconds of a week. -/
def week : Float := 604800.0
/-- The seconds of a year of 365 days. -/
def year : Float := 31536000.0
/-- The seconds of a tick. -/
def tick : Float := 0.05
/-- The ticks of a second. -/
def ticksPerSecond : Float := 20.0

/-- The seconds of the unit that a letter stands for. -/
def unit? : Char → Option Float
  | 't' => some tick
  | 's' => some 1.0
  | 'm' => some minute
  | 'h' => some hour
  | 'd' => some day
  | 'w' => some week
  | 'y' => some year
  | _ => none

/-- The duration of a number of ticks. -/
def ofTicks (ticks : Int) : Duration := ⟨ofInt ticks / ticksPerSecond⟩

/-- Whole milliseconds, cut toward zero. -/
def millis (d : Duration) : Int := truncate (d.seconds * 1000.0)

/-- Whole ticks, cut toward zero. -/
def ticks (d : Duration) : Int := truncate (d.seconds * ticksPerSecond)

/-- Whole seconds, a half going away from zero. What lies between 0 and 1 counts as 1. -/
def wholeSeconds (d : Duration) : Int :=
  if 0.0 < d.seconds ∧ d.seconds < 1.0 then 1 else roundAway d.seconds

/-! ## Reading -/

/-- A number with a unit after it; seconds if the text ends in a digit. -/
def single? (body : List Char) : Option Duration := do
  let last ← body.getLast?
  let (number, unit) ←
    if isAsciiDigit last then some (body, 1.0)
    else (unit? last).map fun u => (body.dropLast, u)
  let value ← float? (trim number)
  let seconds := value * unit
  if seconds.isFinite then some ⟨seconds⟩ else none

/-- Whether a text is a range: it has a dash that neither begins it nor belongs to an exponent. -/
def isRange (body : List Char) : Bool :=
  body.contains '-' && body.head? != some '-' && !occursIn ['e', '-'] body

/-- A duration drawn between two others, in whole seconds. -/
def between (draw : Draws) (a b : Duration) : Duration :=
  ⟨ofInt (draw.integer a.wholeSeconds b.wholeSeconds)⟩

/-- The text after the mark of an identity, if it has one. -/
def withoutMark : List Char → List Char
  | 'd' :: '@' :: rest => rest
  | cs => cs

private theorem length_withoutMark_le (cs : List Char) : (withoutMark cs).length ≤ cs.length := by
  unfold withoutMark
  split
  · simp only [List.length_cons]; omega
  · exact Nat.le_refl _

/-- The words for no time at all. -/
def zeroWords : List (List Char) :=
  [['i', 'n', 's', 't', 'a', 'n', 't'], ['i', 'n', 'f', 'i', 'n', 'i', 't', 'e']]

/-- Reads text in lower case. The ends of a range may be ranges themselves. -/
def ofLower? (cs : List Char) (draw : Draws := .least) : Option Duration :=
  let body := withoutMark (trim cs)
  if zeroWords.contains body then some ⟨0.0⟩
  else if isRange body then
    match _ : splitOnce '-' body with
    | some (low, high) => do
      some (between draw (← ofLower? low (draw.within 0)) (← ofLower? high (draw.within 1)))
    | none => none
  else single? body
termination_by cs.length
decreasing_by
  all_goals
    have := length_splitOnce ‹splitOnce _ _ = _›
    have := length_withoutMark_le (trim cs)
    have := length_trim_le cs
    simp only [body] at *
    omega

/-- Reads a duration in any of its text forms. -/
def ofChars? (cs : List Char) (draw : Draws := .least) : Option Duration :=
  ofLower? (lowerChars (trim cs)) draw

/-- Reads a duration in any of its text forms. -/
def ofText? (s : String) (draw : Draws := .least) : Option Duration := ofChars? s.toList draw

/-! ## Writing -/

/-- The identity: the seconds as a number, exactly. -/
def identityChars (d : Duration) : List Char := 'd' :: '@' :: floatChars d.seconds ++ ['s']

/-- The counts of years, days, hours, minutes and seconds that a whole number of seconds shows.
Hours drop out once there are years, minutes once there are days, and seconds once there are ten
minutes or any larger unit. -/
def counts (total : Int) : List (Int × Char × String) :=
  let years := total / 31536000
  let days := total / 86400 - years * 365
  let hours := total / 3600 - total / 86400 * 24
  let minutes := total / 60 - hours * 60
  let seconds := total - total / 60 * 60
  [ (years, 'y', "year"),
    (days, 'd', "day"),
    (if years = 0 then hours else 0, 'h', "hour"),
    (if days = 0 ∧ years = 0 then minutes else 0, 'm', "minute"),
    (if minutes < 10 ∧ hours = 0 ∧ days = 0 ∧ years = 0 then seconds else 0, 's', "second") ].filter
    fun part => 0 < part.1

/-- One count with its unit, a letter or a word. -/
def part (words : Bool) (count : Int) (letter : Char) (word : String) : List Char :=
  if words then intDigits count ++ ' ' :: word.toList ++ (if count = 1 then [] else ['s'])
  else intDigits count ++ [letter]

/-- The duration for people, in letters or in words. Less than a second has two decimal places. -/
def formattedChars (d : Duration) (words : Bool) : List Char :=
  let size := d.seconds.abs
  let parts := (counts (truncate size)).map fun (count, letter, word) =>
    part words count letter word
  let body :=
    if !parts.isEmpty then joinWith [' '] parts
    else if size == 0.0 then ['f', 'o', 'r', 'e', 'v', 'e', 'r']
    else floatChars (dropFraction (size * 100.0) / 100.0) ++ ['s']
  if d.seconds < 0.0 then "negative ".toList ++ body else body

/-- The duration for people, in letters or in words. -/
def formatted (d : Duration) (words : Bool) : String := .ofList (d.formattedChars words)

/-- The identity with the form for people after it. -/
def debugChars (d : Duration) : List Char :=
  d.identityChars ++ ' ' :: '(' :: d.formattedChars false ++ [')']

end Duration

end TextTags
