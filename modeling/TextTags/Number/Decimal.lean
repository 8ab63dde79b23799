import TextTags.Text.Blank
import TextTags.Text.Case
import TextTags.Text.WordTable
import TextTags.Number.Binary64

/-!
# Decimal numerals

The grammar of a decimal numeral (an optional sign, digits with an optional point, an optional
exponent), the number nearest to one, and integers of 64 bits.
-/

namespace TextTags.Number

open TextTags.Text

/-- A decimal numeral taken apart. -/
structure Numeral where
  negative : Bool
  whole : List Char
  fraction : List Char
  exponentNegative : Bool
  exponent : List Char

/-- The digits 0 to 9. -/
def isAsciiDigit (c : Char) : Bool := '0' ≤ c && c ≤ '9'

/-- The decimal digits of all scripts. -/
def isDecimalDigit (c : Char) : Bool := inRanges digitRanges c

/-- The number that a run of the digits 0 to 9 writes. -/
def digitsValue (cs : List Char) : Nat := cs.foldl (fun n c => 10 * n + (c.toNat - '0'.toNat)) 0

/-- A sign that may be missing, and what follows it. -/
def takeSign : List Char → Bool × List Char
  | '-' :: rest => (true, rest)
  | '+' :: rest => (false, rest)
  | cs => (false, cs)

/-- Reads an exponent that may be missing and that ends the text: its sign and its digits. -/
def exponent? (isDigit : Char → Bool) : List Char → Option (Bool × List Char)
  | [] => some (false, [])
  | c :: rest =>
    if c = 'e' ∨ c = 'E' then
      let (negative, digits) := takeSign rest
      if digits.isEmpty ∨ !digits.all isDigit then none else some (negative, digits)
    else none

/-- A point that may be missing with the digits after it, and what follows them. -/
def takeFraction (isDigit : Char → Bool) : List Char → List Char × List Char
  | '.' :: rest => (rest.takeWhile isDigit, rest.dropWhile isDigit)
  | cs => ([], cs)

/-- Reads a whole text as a decimal numeral over the given digits. At least one digit stands before
or after the point. -/
def numeral? (isDigit : Char → Bool) (cs : List Char) : Option Numeral := do
  let (negative, unsigned) := takeSign cs
  let whole := unsigned.takeWhile isDigit
  let (fraction, rest) := takeFraction isDigit (unsigned.dropWhile isDigit)
  if whole.isEmpty && fraction.isEmpty then none
  let (exponentNegative, exponent) ← exponent? isDigit rest
  some { negative, whole, fraction, exponentNegative, exponent }

/-- The number nearest to `digits * 10 ^ exponent`. Exponents far outside the range of the format
are settled without computing the power. -/
def ofDecimal (negative : Bool) (digits : Nat) (exponent : Int) : Float :=
  if digits = 0 then ofRatio negative 0 1
  else
    let size : Int := exponent + (Nat.toDigits 10 digits).length
    if 400 < size then infinity negative
    else if size < -400 then ofRatio negative 0 1
    else if 0 ≤ exponent then ofRatio negative (digits * Nat.pow 10 exponent.toNat) 1
    else ofRatio negative digits (Nat.pow 10 (-exponent).toNat)

/-- The number a numeral over the digits 0 to 9 stands for. -/
def Numeral.value (n : Numeral) : Float :=
  ofDecimal n.negative (digitsValue (n.whole ++ n.fraction))
    (signed n.exponentNegative (digitsValue n.exponent) - n.fraction.length)

/-- Whether a text is a decimal numeral, in the digits of any script. -/
def isNumeral (cs : List Char) : Bool := (numeral? isDecimalDigit cs).isSome

/-- The number a decimal numeral in the digits 0 to 9 stands for. -/
def float? (cs : List Char) : Option Float := (numeral? isAsciiDigit cs).map Numeral.value

/-- The words for numbers that no numeral writes. -/
def wordFloat? (cs : List Char) : Option Float :=
  let (negative, word) := takeSign cs
  let low := asciiLowerChars word
  if low = ['i', 'n', 'f'] ∨ low = ['i', 'n', 'f', 'i', 'n', 'i', 't', 'y'] then
    some (infinity negative)
  else if low = ['n', 'a', 'n'] then some notANumber
  else none

/-- Reads a decimal numeral or one of the words `inf`, `infinity` and `nan`. -/
def anyFloat? (cs : List Char) : Option Float := (float? cs).or (wordFloat? cs)

/-- Reads a natural number, before which a plus may stand. -/
def nat? (cs : List Char) : Option Nat :=
  let digits := match cs with
    | '+' :: rest => rest
    | _ => cs
  if digits.isEmpty ∨ !digits.all isAsciiDigit then none else some (digitsValue digits)

/-- Reads an integer of 64 bits, before which a sign may stand. -/
def int64? (cs : List Char) : Option Int :=
  let (negative, digits) := takeSign cs
  if digits.isEmpty ∨ !digits.all isAsciiDigit then none
  else
    let n := signed negative (digitsValue digits)
    if fitsInt64 n then some n else none

end TextTags.Number
