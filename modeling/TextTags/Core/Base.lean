import TextTags.Core.Reference

/-!
# The bases

What a chain can begin with: values written out in a parameter, references to the place of the
caller, its definitions and context values, a choice between two texts, and the clock and random
numbers.
-/

namespace TextTags.Core

open Handler

/-- A base that reads its parameter as a value of one kind. -/
def literalBase (name : String) (kind : Kind) : Registration :=
  .base name kind (Attempt.paramAs kind 0)

/-- A reference: the one that the parameter names, or the caller's own where there is no
parameter. -/
def referenceBase (name : String) (kind : Kind) (own : Site → Option Value) : Registration :=
  .base name kind do
    let c ← cursor
    if c.hasParam 0 then Attempt.paramAs kind 0
    else return own (← context).site

/-- The definition of the caller's queue that the parameter names. -/
def definition : Attempt Value := do
  let name ← .paramText 0
  let caller ← context
  queueDefinition (← .ofOption caller.site.queue) name

/-- The context value that the next segment names. -/
def contextValue : Attempt Value := do
  let c ← cursor
  let name ← .ofOption (c.key? 1)
  let caller ← context
  let value ← .of (host (.contextValue caller.site name))
  fulfill 1
  return value

/-- Whether the segments of a choice follow, each with its parameter. -/
def hasBranches (c : Cursor) : Bool :=
  c.isNamed 1 "pass" && c.hasParam 1 && c.isNamed 2 "fail" && c.hasParam 2

/-- One of two parameters, chosen by whether the condition is true. The other one is not filled. -/
def choice : Attempt Value := do
  let c ← cursor
  if hasBranches c then
    let condition ← .paramText 0
    let chosen ← .param (if Element.isTrue condition then 1 else 2)
    fulfill 2
    return chosen
  else
    lackParam
    failure

/-- A random integer between those that the parameters at two places write. -/
def randomBetween : Attempt Value := do
  let a ← .ofOption (Element.integer? (← .paramText 2))
  let b ← .ofOption (Element.integer? (← .paramText 3))
  let caller ← context
  fulfill 3
  return .ofInt (caller.draw.integer a b)

/-- The clock and random numbers. -/
def utility : Attempt Value := do
  let c ← cursor
  let caller ← context
  if c.isNamed 1 "time_now" then
    fulfill 1
    return .time caller.now
  else if c.isNamed 1 "random" && c.isNamed 2 "int" && c.isNamed 3 "to" then randomBetween
  else if c.isNamed 1 "random" && c.isNamed 2 "decimal" then
    fulfill 2
    return .ofFloat caller.draw.number
  else failure

/-- The bases. -/
def bases : List Registration :=
  [ .base "element" .element (do return .element (← Attempt.paramText 0) : Attempt Value),
    literalBase "list" .list,
    literalBase "map" .map,
    literalBase "duration" .duration,
    literalBase "time" .time,
    referenceBase "queue" .queue fun site => site.queue.map .queue,
    referenceBase "script" .script fun site => site.script.map .script,
    literalBase "custom" .custom,
    .base "definition" .element definition,
    .base "context" .element contextValue,
    .base "tern" .element choice,
    .base "util" .element utility ]

end TextTags.Core
