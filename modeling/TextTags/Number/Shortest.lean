import TextTags.Text.Pieces
import TextTags.Number.Decimal

/-!
# Number text

A number is written with the fewest decimal digits that read back as it, never with an exponent.
Whole numbers below `10 ^ 15` have one decimal place. Among texts of the fewest digits the nearest
to the number is taken, of two equally near ones the larger.
-/

namespace TextTags.Number

open TextTags.Text

/-- A decimal number `digits * 10 ^ exponent`. -/
structure Decimal where
  digits : Nat
  exponent : Int
deriving DecidableEq

/-- The number of digits that always suffices. -/
def enoughDigits : Nat := 17

/-- Whether a decimal reads back as a number. -/
def Decimal.readsAs (d : Decimal) (x : Float) : Bool :=
  (ofDecimal false d.digits d.exponent).toBits == x.toBits

/-- `significand * 2 ^ exponent` as a quotient of natural numbers. -/
def quotient (significand : Nat) (exponent : Int) : Nat × Nat :=
  if 0 ≤ exponent then (significand * Nat.pow 2 exponent.toNat, 1)
  else (significand, Nat.pow 2 (-exponent).toNat)

/-- The exponent `p` with `10 ^ p ≤ num / den < 10 ^ (p + 1)`, for a positive quotient. -/
def leadingPlace (num den : Nat) : Int :=
  if den ≤ num then ((Nat.toDigits 10 (num / den)).length : Int) - 1
  else
    let up := ((Nat.toDigits 10 (den / num)).length : Int)
    if den ≤ num * Nat.pow 10 (up - 1).toNat then 1 - up else -up

/-- The two neighbours of `num / den` among the multiples of `10 ^ place`, the lower one first, and
whether the upper one is at least as near. -/
def neighbours (num den : Nat) (place : Int) : Decimal × Decimal × Bool :=
  let (a, b) := if 0 ≤ place then (num, den * Nat.pow 10 place.toNat)
    else (num * Nat.pow 10 (-place).toNat, den)
  (⟨a / b, place⟩, ⟨a / b + 1, place⟩, b ≤ 2 * (a % b))

/-- The decimal of `count` digits nearest to a positive number, if one of that length reads back. -/
def shortOfLength? (x : Float) (num den : Nat) (lead : Int) (count : Nat) : Option Decimal :=
  let (low, high, upward) := neighbours num den (lead + 1 - count)
  let nearer := if upward then high else low
  let farther := if upward then low else high
  if nearer.readsAs x then some nearer
  else if farther.readsAs x then some farther
  else none

/-- The shortest decimal that reads back as the positive number `significand * 2 ^ exponent`. -/
def shortest (x : Float) (significand : Nat) (exponent : Int) : Decimal :=
  let (num, den) := quotient significand exponent
  let lead := leadingPlace num den
  let counts := (List.range enoughDigits).map (· + 1)
  match counts.findSome? (shortOfLength? x num den lead) with
  | some d => d
  | none => exactly
where
  /-- The number itself, with all its digits. -/
  exactly : Decimal :=
    if 0 ≤ exponent then ⟨significand * Nat.pow 2 exponent.toNat, 0⟩
    else ⟨significand * Nat.pow 5 (-exponent).toNat, exponent⟩

/-- A decimal in positional notation, without zeros at the end of its fraction. -/
def Decimal.positional (d : Decimal) : List Char :=
  if 0 ≤ d.exponent then natDigits d.digits ++ List.replicate d.exponent.toNat '0'
  else
    let places := (-d.exponent).toNat
    let all := padStart (places + 1) '0' (natDigits d.digits)
    let whole := all.take (all.length - places)
    let fraction := ((all.drop (all.length - places)).reverse.dropWhile (· == '0')).reverse
    if fraction.isEmpty then whole else whole ++ '.' :: fraction

/-- From this whole number on no decimal place is written. -/
def placeLimit : Nat := Nat.pow 10 15

/-- The text of a number. -/
def floatChars (x : Float) : List Char :=
  match decode x with
  | .notANumber => ['N', 'a', 'N']
  | .infinite negative => sign negative ++ ['i', 'n', 'f']
  | .finite negative m e =>
    if isWhole x && wholePart m e < placeLimit then
      sign negative ++ natDigits (wholePart m e) ++ ['.', '0']
    else sign negative ++ (shortest x.abs m e).positional
where
  /-- The sign, which only a negative number has. -/
  sign (negative : Bool) : List Char := if negative then ['-'] else []

/-- The text of a number. -/
def floatText (x : Float) : String := .ofList (floatChars x)

end TextTags.Number
