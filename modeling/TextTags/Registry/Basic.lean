import TextTags.Handler
import TextTags.Registry.Near

/-!
# The registry

Bases, attributes of each kind of value, one fallback for each kind, and attributes of all kinds.
Names are registered in lower case; a later registration of a name replaces the earlier one and is
remembered as a duplicate.
-/

namespace TextTags

/-- Whether an attribute takes a parameter. -/
inductive Arity
  | none | optional | required
deriving DecidableEq

/-- Whether an attribute can be meant by a segment with or without a parameter. -/
def Arity.accepts (arity : Arity) (hasParam : Bool) : Bool :=
  match arity with
  | none => !hasParam
  | optional => true
  | required => hasParam

/-- What gives a chain its root value. -/
structure Base where
  name : String
  returns : Kind
  handler : Handler (Option Value)

/-- What makes a value of another. -/
abbrev ValueHandler := Value → Handler (Option Value)

/-- A named attribute. -/
structure Attr where
  name : String
  arity : Arity
  handler : ValueHandler

/-- One call of registration. -/
inductive Registration
  | base (name : String) (returns : Kind) (handler : Handler (Option Value))
  /-- An attribute of one kind, under each of several names. -/
  | attributes (kind : Kind) (names : List String) (arity : Arity) (handler : ValueHandler)
  /-- What is tried for a kind where no attribute has the name. -/
  | fallback (kind : Kind) (handler : ValueHandler)
  /-- An attribute of all kinds. -/
  | universal (name : String) (arity : Arity) (handler : ValueHandler)

/-- All that chains can name. -/
structure Registry where
  bases : List (String × Base) := []
  attributes : List ((Kind × String) × Attr) := []
  fallbacks : List (Kind × ValueHandler) := []
  universals : List (String × Attr) := []
  /-- What was registered again, in order. -/
  duplicates : List String := []

namespace Registry

/-- A table with the value of a key set. -/
def put {κ α : Type} [BEq κ] (key : κ) (value : α) (table : List (κ × α)) : List (κ × α) :=
  (key, value) :: table.filter (·.1 != key)

/-- The registry with a duplicate remembered, if it is one. -/
def remember (r : Registry) (again : Bool) (what : String) : Registry :=
  if again then { r with duplicates := r.duplicates ++ [what] } else r

/-- Registers a base. -/
def addBase (r : Registry) (name : String) (returns : Kind) (handler : Handler (Option Value)) :
    Registry :=
  let key := Text.lower name
  let r' := r.remember (r.bases.lookup key).isSome ("tag-base '" ++ key ++ "'")
  { r' with bases := put key ⟨key, returns, handler⟩ r.bases }

/-- Registers an attribute of one kind under one name. -/
def addAttribute (kind : Kind) (arity : Arity) (handler : ValueHandler) (r : Registry)
    (name : String) : Registry :=
  let key := Text.lower name
  let r' := r.remember (r.attributes.lookup (kind, key)).isSome (kind.longName ++ "." ++ key)
  { r' with attributes := put (kind, key) ⟨key, arity, handler⟩ r.attributes }

/-- Registers the fallback of one kind. -/
def addFallback (r : Registry) (kind : Kind) (handler : ValueHandler) : Registry :=
  let r' := r.remember (r.fallbacks.lookup kind).isSome (kind.longName ++ " fallback")
  { r' with fallbacks := put kind handler r.fallbacks }

/-- Registers an attribute of all kinds. -/
def addUniversal (r : Registry) (name : String) (arity : Arity) (handler : ValueHandler) :
    Registry :=
  let key := Text.lower name
  let r' := r.remember (r.universals.lookup key).isSome ("universal '" ++ key ++ "'")
  { r' with universals := put key ⟨key, arity, handler⟩ r.universals }

/-- One registration more. -/
def register (r : Registry) : Registration → Registry
  | .base name returns handler => r.addBase name returns handler
  | .attributes kind names arity handler => names.foldl (addAttribute kind arity handler) r
  | .fallback kind handler => r.addFallback kind handler
  | .universal name arity handler => r.addUniversal name arity handler

/-- The registry after a history of registrations. -/
def ofHistory (history : List Registration) : Registry := history.foldl register {}

/-- The message about a name registered twice. -/
def duplicateMessage (what : String) : String := "duplicate registration: " ++ what

/-- Accepts a registry in which no name was registered twice; otherwise tells the first that was. -/
def validate (r : Registry) : Except String Unit :=
  match r.duplicates with
  | [] => .ok ()
  | first :: _ => .error first

/-- The base of a name in lower case. -/
def base? (r : Registry) (key : String) : Option Base := r.bases.lookup key

/-- The attribute of a kind under a name in lower case. -/
def attribute? (r : Registry) (kind : Kind) (key : String) : Option Attr :=
  r.attributes.lookup (kind, key)

/-- The fallback of a kind. -/
def fallback? (r : Registry) (kind : Kind) : Option ValueHandler := r.fallbacks.lookup kind

/-- The attribute of all kinds under a name in lower case. -/
def universal? (r : Registry) (key : String) : Option Attr := r.universals.lookup key

/-- The names of attributes of a kind that a key may have meant, in order. -/
def near (r : Registry) (kind : Kind) (key : String) (hasParam : Bool) : List String :=
  let found := r.attributes.filter fun e =>
    e.1.1 = kind && e.2.arity.accepts hasParam && Near.looksLike e.2.name key
  (found.map (·.2.name)).mergeSort fun a b => !decide (b < a)

end Registry

end TextTags
