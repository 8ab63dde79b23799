import TextTags.Element
import TextTags.Registry.Basic

/-!
# Attributes of elements
-/

namespace TextTags.Core

open Handler

/-- A handler for elements alone. -/
def onElement (f : String → Attempt Value) : ValueHandler
  | .element text => f text
  | _ => .done none

/-- An attribute of elements without a parameter. -/
def elementPlain (names : List String) (f : String → Option Value) : Registration :=
  .attributes .element names .none (onElement fun text => .ofOption (f text))

/-- An attribute of elements whose parameter is a text. -/
def elementWith (name : String) (f : String → String → Option Value) : Registration :=
  .attributes .element [name] .required (onElement fun text => do
    let other ← .paramText 0
    .ofOption (f text other))

/-- An attribute of elements that reads the text as a value, with the draws of its ranges. -/
def elementRead (name : String) (f : String → Draws → Option Value) : Registration :=
  .attributes .element [name] .none (onElement fun text => do
    let caller ← context
    .ofOption (f text caller.draw))

/-- A comparison of two texts that are numbers. -/
def comparison (test : Float → Float → Bool) (a b : String) : Option Value := do
  let y ← Element.number? b
  let x ← Element.number? a
  some (.ofBool (test x y))

/-- The pieces of an element between the occurrences of the parameter, or between spaces where
there is none. -/
def splitElement : Registration :=
  .attributes .element ["split"] .optional (onElement fun text => .of do
    let separator ← Handler.param 0
    return some (.ofTexts (Element.split text ((separator.map Value.asElement).getD ""))))

/-- The attributes of elements. -/
def elementAttributes : List Registration :=
  [ elementPlain ["length"] fun text => some (.ofInt text.length),
    elementPlain ["to_uppercase"] fun text => some (.element (Text.upper text)),
    elementPlain ["to_lowercase"] fun text => some (.element (Text.lower text)),
    elementWith "add" (Element.arithmetic? .add),
    elementWith "sub" (Element.arithmetic? .sub),
    elementWith "mul" (Element.arithmetic? .mul),
    elementWith "div" (Element.arithmetic? .div),
    elementWith "is_more_than" (comparison fun x y => x > y),
    elementWith "is_less_than" (comparison fun x y => x < y),
    elementWith "equals" fun a b => some (.ofBool (Element.equal a b)),
    elementWith "contains" fun a b => some (.ofBool (Element.contains a b)),
    splitElement,
    elementRead "as_duration" fun text draw => (Duration.ofText? text draw).map .duration,
    elementRead "as_list" fun text draw => some (.list (Value.itemsOfText text draw)),
    elementPlain ["is_truthy"] fun text => some (.ofBool (Element.isTruthy text)) ]

end TextTags.Core
