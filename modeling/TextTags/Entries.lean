import TextTags.Text.Case

/-!
# Entries in order of insertion

A finite map as a list of pairs. Keys are compared by ASCII case only; an entry keeps its place and
the spelling of its first insertion when its value is replaced.
-/

namespace TextTags

/-- Keys with their values, in the order in which the keys were first inserted. -/
abbrev Entries (α : Type) := List (String × α)

namespace Entries

variable {α : Type}

/-- Whether two keys are the same key. -/
def sameKey (a b : String) : Bool := Text.sameIgnoringCase a.toList b.toList

/-- The value of a key. -/
def get? (es : Entries α) (key : String) : Option α :=
  (es.find? fun e => sameKey e.1 key).map (·.2)

/-- Sets the value of a key, in place if the key is there and at the end if it is not. -/
def insert (es : Entries α) (key : String) (value : α) : Entries α :=
  match es with
  | [] => [(key, value)]
  | e :: rest => if sameKey e.1 key then (e.1, value) :: rest else e :: insert rest key value

/-- Inserts pairs one after another. -/
def insertAll (es : Entries α) (pairs : List (String × α)) : Entries α :=
  pairs.foldl (fun acc p => insert acc p.1 p.2) es

/-- The keys in order. -/
def keys (es : Entries α) : List String := es.map (·.1)

/-- The values in order. -/
def values (es : Entries α) : List α := es.map (·.2)

end Entries

end TextTags
