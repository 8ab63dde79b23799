import TextTags.Element
import TextTags.Registry.Basic

/-!
# Attributes of lists and maps

Items are counted from 1, and compared by identity with the case of ASCII letters ignored. Keys
are compared in the same way.
-/

namespace TextTags.Core

open Handler

/-- A handler for lists alone. -/
def onList (f : List Value → Attempt Value) : ValueHandler
  | .list items => f items
  | _ => .done none

/-- A handler for maps alone. -/
def onMap (f : Entries Value → Attempt Value) : ValueHandler
  | .map entries => f entries
  | _ => .done none

/-- An attribute of lists without a parameter. -/
def listPlain (name : String) (f : List Value → Option Value) : Registration :=
  .attributes .list [name] .none (onList fun items => .ofOption (f items))

/-- An attribute of lists whose parameter is a text. -/
def listWith (name : String) (f : List Value → String → Option Value) : Registration :=
  .attributes .list [name] .required (onList fun items => do
    let text ← .paramText 0
    .ofOption (f items text))

/-- An attribute of maps without a parameter. -/
def mapPlain (name : String) (f : Entries Value → Value) : Registration :=
  .attributes .map [name] .none (onMap fun entries => pure (f entries))

/-- An attribute of maps whose parameter is a key. -/
def mapWith (name : String) (f : Entries Value → String → Option Value) : Registration :=
  .attributes .map [name] .required (onMap fun entries => do
    let key ← .paramText 0
    .ofOption (f entries key))

/-- The item at the place that a text writes. -/
def itemAt (items : List Value) (text : String) : Option Value := do
  Value.item? items (← Element.integer? text)

/-- Whether an item has an identity. -/
def holdsItem (items : List Value) (identity : String) : Bool :=
  items.any fun v => Text.sameIgnoringCase v.identityChars identity.toList

/-- The identities of items with a separator between them. -/
def separatedBy (items : List Value) (separator : String) : String :=
  .ofList (Text.joinWith separator.toList (items.map Value.identityChars))

/-- The list with the items of the parameter after its own. -/
def includeItems : Registration :=
  .attributes .list ["include"] .required (onList fun items => do
    match ← Attempt.paramAs .list 0 with
    | .list more => pure (.list (items ++ more))
    | _ => failure)

/-- The attributes of lists. -/
def listAttributes : List Registration :=
  [ listPlain "size" fun items => some (.ofInt items.length),
    listWith "get" itemAt,
    listPlain "first" List.head?,
    listPlain "last" List.getLast?,
    listPlain "reverse" fun items => some (.list items.reverse),
    listWith "contains" fun items text => some (.ofBool (holdsItem items text)),
    listWith "separated_by" fun items text => some (.element (separatedBy items text)),
    includeItems ]

/-- The attributes of maps. -/
def mapAttributes : List Registration :=
  [ mapPlain "size" fun entries => .ofInt entries.length,
    mapWith "get" Entries.get?,
    mapPlain "keys" fun entries => .ofTexts entries.keys,
    mapPlain "values" fun entries => .list entries.values,
    mapWith "contains" fun entries key => some (.ofBool (entries.get? key).isSome) ]

end TextTags.Core
