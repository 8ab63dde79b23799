import TextTags.Text.Pieces
import TextTags.Number.Binary64

/-!
# Time limits

A limit is a whole number of nanoseconds below `2 ^ 64` seconds. It is written in the largest unit
of which it holds at least one, with as many decimal places as it needs.
-/

namespace TextTags

open Text Number

/-- A span of time for which a caller waits. -/
structure Limit where
  nanos : Nat
deriving DecidableEq

namespace Limit

/-- The nanoseconds of a second. -/
def nanosPerSecond : Nat := Nat.pow 10 9

/-- The limit of a number of seconds, to the nearest nanosecond with a tie going to the even one.
Negative, infinite and too large numbers give none. -/
def ofSeconds? (x : Float) : Option Limit :=
  match decode x with
  | .finite negative m e =>
    let nanos := if 0 ≤ e then m * Nat.pow 2 e.toNat * nanosPerSecond
      else roundHalfEven (m * nanosPerSecond) (Nat.pow 2 (-e).toNat)
    if (negative && m != 0) || Nat.pow 2 64 * nanosPerSecond ≤ nanos then none else some ⟨nanos⟩
  | _ => none

/-- `count / unit` with the decimal places it needs, `places` of them making one `unit`. -/
def inUnit (count places : Nat) : List Char :=
  let fraction := padStart places '0' (natDigits (count % Nat.pow 10 places))
  let shown := (fraction.reverse.dropWhile (· == '0')).reverse
  let whole := natDigits (count / Nat.pow 10 places)
  if places = 0 ∨ shown.isEmpty then whole else whole ++ '.' :: shown

/-- The text of a limit. -/
def text (l : Limit) : String :=
  .ofList <|
    if Nat.pow 10 9 ≤ l.nanos then inUnit l.nanos 9 ++ ['s']
    else if Nat.pow 10 6 ≤ l.nanos then inUnit l.nanos 6 ++ ['m', 's']
    else if Nat.pow 10 3 ≤ l.nanos then inUnit l.nanos 3 ++ ['µ', 's']
    else inUnit l.nanos 0 ++ ['n', 's']

end Limit

end TextTags
