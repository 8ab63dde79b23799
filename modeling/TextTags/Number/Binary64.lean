/-!
# Binary floating point, exactly

A finite number of the binary64 format is a sign, a significand and a power of two. Rounding a
quotient of natural numbers to the format, and the whole-number parts of a number, are computed in
exact arithmetic on these.
-/

namespace TextTags.Number

/-- What the 64 bits of a number say. A finite number is `significand * 2 ^ exponent`. -/
inductive Decoded
  | finite (negative : Bool) (significand : Nat) (exponent : Int)
  | infinite (negative : Bool)
  | notANumber

/-- The parts of a number. -/
def decode (x : Float) : Decoded :=
  let bits : Nat := x.toBits.toNat
  let negative := bits / Nat.pow 2 63 % 2 == 1
  let biased : Nat := bits / Nat.pow 2 52 % Nat.pow 2 11
  let fraction : Nat := bits % Nat.pow 2 52
  if biased = Nat.pow 2 11 - 1 then if fraction = 0 then .infinite negative else .notANumber
  else if biased = 0 then .finite negative fraction (-1074)
  else .finite negative (Nat.pow 2 52 + fraction) ((biased : Int) - 1075)

/-- `num / den` rounded to a whole number, a half going to the even neighbour. -/
def roundHalfEven (num den : Nat) : Nat :=
  let whole := num / den
  let double := 2 * (num % den)
  if double < den then whole
  else if double = den then whole + whole % 2
  else whole + 1

/-- `num / (den * 2 ^ exponent)` as a pair of natural numbers. -/
def scaleDown (num den : Nat) (exponent : Int) : Nat × Nat :=
  if 0 ≤ exponent then (num, den * Nat.pow 2 exponent.toNat)
  else (num * Nat.pow 2 (-exponent).toNat, den)

/-- The power of two that the last place of `num / den` has in the format: the quotient is below
`2 ^ 53` of these units, and at least `2 ^ 52` of them unless the unit is the smallest there is. -/
def unitExponent (num den : Nat) : Int :=
  let guess : Int := (num.log2 : Int) - den.log2 - 52
  let (a, b) := scaleDown num den guess
  max (if a < Nat.pow 2 52 * b then guess - 1 else guess) (-1074)

/-- The bits of infinity without the sign. -/
def infinityBits : Nat := (Nat.pow 2 11 - 1) * Nat.pow 2 52

/-- The bits, without the sign, of the number nearest to `num / den`. Past the largest finite
number they are those of infinity. -/
def magnitudeBits (num den : Nat) : Nat :=
  let unit := unitExponent num den
  let (a, b) := scaleDown num den unit
  min ((unit + 1074).toNat * Nat.pow 2 52 + roundHalfEven a b) infinityBits

/-- The number with the given sign and the given other bits. -/
def ofMagnitudeBits (negative : Bool) (bits : Nat) : Float :=
  Float.ofBits (UInt64.ofNat ((if negative then Nat.pow 2 63 else 0) + bits))

/-- The number nearest to `num / den`, a tie going to the even significand. -/
def ofRatio (negative : Bool) (num den : Nat) : Float :=
  ofMagnitudeBits negative (if num = 0 then 0 else magnitudeBits num den)

/-- The infinite number of the given sign. -/
def infinity (negative : Bool) : Float := ofMagnitudeBits negative infinityBits

/-- The value that is not a number. -/
def notANumber : Float := ofMagnitudeBits false (infinityBits + Nat.pow 2 51)

/-- The number nearest to an integer. -/
def ofInt (n : Int) : Float := ofRatio (n < 0) n.natAbs 1

/-- `significand * 2 ^ exponent` without its fraction. -/
def wholePart (significand : Nat) (exponent : Int) : Nat :=
  if 0 ≤ exponent then significand * Nat.pow 2 exponent.toNat
  else significand / Nat.pow 2 (-exponent).toNat

/-- `significand * 2 ^ exponent` rounded to a whole number, a half going up. -/
def roundHalfUp (significand : Nat) (exponent : Int) : Nat :=
  if 0 ≤ exponent then significand * Nat.pow 2 exponent.toNat
  else (2 * significand + Nat.pow 2 (-exponent).toNat) / (2 * Nat.pow 2 (-exponent).toNat)

/-- Whether a number has no fraction. -/
def isWhole (x : Float) : Bool :=
  match decode x with
  | .finite _ m e => 0 ≤ e || m % Nat.pow 2 (-e).toNat == 0
  | _ => false

/-- An integer with the given sign and size. -/
def signed (negative : Bool) (n : Nat) : Int := if negative then -n else n

/-- The least integer of 64 bits. -/
def minInt64 : Int := -(Nat.pow 2 63 : Nat)

/-- The greatest integer of 64 bits. -/
def maxInt64 : Int := (Nat.pow 2 63 : Nat) - 1

/-- The integer of 64 bits nearest to an integer. -/
def clampInt64 (n : Int) : Int := max minInt64 (min maxInt64 n)

/-- Whether an integer has 64 bits. -/
def fitsInt64 (n : Int) : Bool := minInt64 ≤ n && n ≤ maxInt64

/-- A whole number made of a float by `round`, held within 64 bits; what is not a number gives 0. -/
def toWholeBy (round : Nat → Int → Nat) (x : Float) : Int :=
  match decode x with
  | .finite negative m e => clampInt64 (signed negative (round m e))
  | .infinite negative => if negative then minInt64 else maxInt64
  | .notANumber => 0

/-- The number without its fraction, held within 64 bits. -/
def truncate (x : Float) : Int := toWholeBy wholePart x

/-- The nearest whole number, a half going away from zero, held within 64 bits. -/
def roundAway (x : Float) : Int := toWholeBy roundHalfUp x

/-- The number without its fraction, as a float. -/
def dropFraction (x : Float) : Float :=
  match decode x with
  | .finite negative m e => ofRatio negative (wholePart m e) 1
  | _ => x

end TextTags.Number
