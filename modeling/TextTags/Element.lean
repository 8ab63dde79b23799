import TextTags.Number.Shortest
import TextTags.Value.Basic

/-!
# Text as truth and number

An element is text that may be read as a truth value or a number, blanks around it aside. Results
of both sorts are elements again.
-/

namespace TextTags

open Text Number

namespace Value

/-- The element for an integer. -/
def ofInt (n : Int) : Value := .element (.ofList (intDigits n))

/-- The element for a number. -/
def ofFloat (x : Float) : Value := .element (floatText x)

/-- The element for a truth value. -/
def ofBool (b : Bool) : Value := .element (if b then "true" else "false")

/-- The list of elements with the given texts. -/
def ofTexts (texts : List String) : Value := .list (texts.map .element)

end Value

namespace Element

/-- Whether text is a decimal numeral, in the digits of any script. -/
def isDecimal (text : String) : Bool := isNumeral (trim text.toList)

/-- The number that text writes. -/
def number? (text : String) : Option Float := float? (trim text.toList)

/-- The integer of 64 bits that text writes. -/
def integer? (text : String) : Option Int := int64? (trim text.toList)

/-- Whether text is a word, blanks around it and the case of letters aside. -/
def isWord (word text : String) : Bool := sameIgnoringCase (trim text.toList) word.toList

/-- Whether text says that something is true. -/
def isTrue (text : String) : Bool := isWord "true" text

/-- Whether text counts as true: all does but blanks, the words for no, and zero. -/
def isTruthy (text : String) : Bool :=
  !(isWord "" text || isWord "false" text || isWord "null" text ||
    match number? text with
    | some x => x == 0.0
    | none => false)

/-- The operations on numbers. -/
inductive Operation
  | add | sub | mul | div
deriving DecidableEq

/-- The integer result of an operation, if there is one and it has 64 bits. -/
def Operation.exact? (op : Operation) (a b : Int) : Option Int :=
  let result := match op with
    | add => some (a + b)
    | sub => some (a - b)
    | mul => some (a * b)
    | div => if b = 0 ∨ a.tmod b ≠ 0 then none else some (a.tdiv b)
  result.filter fitsInt64

/-- The result of an operation on floating numbers; none for a division by zero. -/
def Operation.floating? (op : Operation) (a b : Float) : Option Float :=
  match op with
  | add => some (a + b)
  | sub => some (a - b)
  | mul => some (a * b)
  | div => if b == 0.0 then none else some (a / b)

/-- The result of an operation on two texts. Integers give an integer wherever the result is one
of 64 bits; all other numbers, and all other results, are floating and have to be finite. -/
def arithmetic? (op : Operation) (a b : String) : Option Value :=
  match (do op.exact? (← integer? a) (← integer? b)) with
  | some n => some (.ofInt n)
  | none => do
    let result ← op.floating? (← number? a) (← number? b)
    if result.isFinite then some (.ofFloat result) else none

/-- Whether two texts are equal, as numbers where both are. -/
def equal (a b : String) : Bool :=
  match number? a, number? b with
  | some x, some y => x == y
  | _, _ => a == b

/-- Whether a text holds another, letter case aside. -/
def contains (text needle : String) : Bool :=
  occursIn (lowerChars needle.toList) (lowerChars text.toList)

/-- The stretches of a text between the occurrences of a separator. An empty one stands for a
space. -/
def split (text separator : String) : List String :=
  let pieces := match separator.toList with
    | [] => splitAtWord ' ' [] text.toList
    | first :: more => splitAtWord first more text.toList
  pieces.map .ofList

end Element

end TextTags
