import TextTags.Entries
import TextTags.Escape
import TextTags.Time.Moment

/-!
# Values

What a tag stands for: text, a list, a map, a span or a point of time, a reference to a queue or a
script, or an object of a custom container. Every value has an identity, the text from which it can
be read back, and a form for debug output.
-/

namespace TextTags

open Text Escape

/-- The kinds of values. -/
inductive Kind
  | element | list | map | duration | time | queue | script | custom
deriving DecidableEq

namespace Kind

/-- The name that a value gives as its type. -/
def name : Kind → String
  | element => "Element"
  | list => "List"
  | map => "Map"
  | duration => "Duration"
  | time => "Time"
  | queue => "Queue"
  | script => "Script"
  | custom => "Custom"

/-- The name in messages and documentation. -/
def longName : Kind → String
  | element => "ElementTag"
  | list => "ListTag"
  | map => "MapTag"
  | duration => "DurationTag"
  | time => "TimeTag"
  | queue => "QueueTag"
  | script => "ScriptTag"
  | custom => "CustomObject"

end Kind

/-- A value. A queue or script is held by its name alone; whether there is one of that name is asked
of the host when it matters. -/
inductive Value
  | element (text : String)
  | list (items : List Value)
  | map (entries : List (String × Value))
  | duration (span : Duration)
  | time (moment : Time)
  | queue (id : String)
  | script (name : String)
  | custom (container : String) (fields : List (String × Value))

namespace Value

instance : Inhabited Value := ⟨.element ""⟩

/-- The kind of a value. -/
def kind : Value → Kind
  | element _ => .element
  | list _ => .list
  | map _ => .map
  | duration _ => .duration
  | time _ => .time
  | queue _ => .queue
  | script _ => .script
  | custom _ _ => .custom

/-! ## Identity -/

/-- One entry of a map, in escaped text. -/
def pairChars (key value : List Char) : List Char := escape key ++ '=' :: escape value

/-- Entries between brackets. -/
def bracketed (pairs : List (List Char)) : List Char := '[' :: joinWith [';'] pairs ++ [']']

mutual

/-- The text that reads back as the value. -/
def identityChars : Value → List Char
  | element text => text.toList
  | list items => 'l' :: 'i' :: '@' :: itemsChars items
  | map entries => 'm' :: 'a' :: 'p' :: '@' :: bracketed (pairTexts entries)
  | duration span => span.identityChars
  | time t => t.identityChars
  | queue id => 'q' :: '@' :: id.toList
  | script name => 's' :: '@' :: name.toList
  | custom container fields =>
    ['c', 'u', 's', 't', 'o', 'm', '@'] ++ escape container.toList ++ bracketed (pairTexts fields)

/-- The items of a list, each closed by a bar. -/
def itemsChars : List Value → List Char
  | [] => []
  | v :: rest => escape (identityChars v) ++ '|' :: itemsChars rest

/-- The entries of a map. -/
def pairTexts : List (String × Value) → List (List Char)
  | [] => []
  | (key, v) :: rest => pairChars key.toList (identityChars v) :: pairTexts rest

end

/-- The text that reads back as the value. -/
def identity (v : Value) : String := .ofList v.identityChars

/-- The value as text: an element's own, another's identity. -/
def asElement (v : Value) : String := v.identity

/-! ## Debug form -/

mutual

/-- The form for debug output: durations and times explain themselves, and items of lists stand
apart. -/
def debugChars : Value → List Char
  | list items => 'l' :: 'i' :: '@' :: joinWith [' ', '|', ' '] (debugItems items)
  | map entries => 'm' :: 'a' :: 'p' :: '@' :: bracketed (debugPairs entries)
  | duration span => span.debugChars
  | time t => t.debugChars
  | element text => text.toList
  | queue id => identityChars (.queue id)
  | script name => identityChars (.script name)
  | custom container fields => identityChars (.custom container fields)

/-- The items of a list for debug output. -/
def debugItems : List Value → List (List Char)
  | [] => []
  | v :: rest => debugChars v :: debugItems rest

/-- The entries of a map for debug output. -/
def debugPairs : List (String × Value) → List (List Char)
  | [] => []
  | (key, v) :: rest => pairChars key.toList (debugChars v) :: debugPairs rest

end

/-- The form for debug output. -/
def debugForm (v : Value) : String := .ofList v.debugChars

/-! ## Equality -/

mutual

/-- Whether two values are equal, durations being compared as numbers: two that are no numbers are
never equal, and the two zeros are. -/
def same : Value → Value → Bool
  | element a, element b => a == b
  | list a, list b => sameItems a b
  | map a, map b => sameEntries a b
  | duration a, duration b => a.seconds == b.seconds
  | time a, time b => a == b
  | queue a, queue b => a == b
  | script a, script b => a == b
  | custom a fa, custom b fb => a == b && sameEntries fa fb
  | _, _ => false

/-- Whether two lists of values are equal. -/
def sameItems : List Value → List Value → Bool
  | [], [] => true
  | a :: as, b :: bs => same a b && sameItems as bs
  | _, _ => false

/-- Whether two lists of entries are equal, keys to the letter. -/
def sameEntries : List (String × Value) → List (String × Value) → Bool
  | [], [] => true
  | (j, a) :: as, (k, b) :: bs => j == k && same a b && sameEntries as bs
  | _, _ => false

end

instance : BEq Value := ⟨same⟩

/-! ## Lists -/

/-- The item at an index counted from 1, or from the end where it is negative. -/
def item? (items : List Value) (index : Int) : Option Value :=
  let place := if index < 0 then (items.length : Int) + index else index - 1
  if 0 ≤ place then items[place.toNat]? else none

end Value

end TextTags
