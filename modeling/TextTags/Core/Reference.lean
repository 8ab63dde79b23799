import TextTags.Element
import TextTags.Registry.Basic

/-!
# Attributes of queues, scripts and custom objects

Queues and scripts are references: what they have is asked of the host. The fields of a custom
object are attributes of it.
-/

namespace TextTags.Core

open Handler

/-- A handler for queues alone. -/
def onQueue (f : String → Attempt Value) : ValueHandler
  | .queue id => f id
  | _ => .done none

/-- A handler for scripts alone. -/
def onScript (f : String → Attempt Value) : ValueHandler
  | .script name => f name
  | _ => .done none

/-- A handler for custom objects alone. -/
def onCustom (f : String → Entries Value → Attempt Value) : ValueHandler
  | .custom container fields => f container fields
  | _ => .done none

/-- The value of a definition of a queue. -/
def queueDefinition (queue name : String) : Attempt Value := .of (host (.definition queue name))

/-- The attributes of queues. -/
def queueAttributes : List Registration :=
  [ .attributes .queue ["id"] .none (onQueue fun id => pure (.element id)),
    .attributes .queue ["exists"] .none (onQueue fun id => .of do
      return some (.ofBool (← host (.queueExists id)))),
    .attributes .queue ["definition"] .required (onQueue fun id => do
      queueDefinition id (← .paramText 0)),
    .attributes .queue ["definitions"] .none (onQueue fun id => .of do
      return some (.ofTexts (← host (.definitionNames id)))) ]

/-- The attributes of scripts. -/
def scriptAttributes : List Registration :=
  [ .attributes .script ["name"] .none (onScript fun name => pure (.element name)),
    .attributes .script ["exists"] .none (onScript fun name => .of do
      return some (.ofBool (← host (.scriptExists name)))),
    .attributes .script ["container_type"] .none (onScript fun name => .of do
      return (← host (.scriptType name)).map .element) ]

/-- The field that the present segment names. -/
def namedField (fields : Entries Value) : Attempt Value := .of do
  let c ← cursor
  return (c.key? 0).bind fields.get?

/-- The attributes of custom objects. -/
def customAttributes : List Registration :=
  [ .attributes .custom ["script"] .none (onCustom fun container _ => pure (.script container)),
    .attributes .custom ["fields"] .none (onCustom fun _ fields => pure (.ofTexts fields.keys)),
    .fallback .custom (onCustom fun _ fields => namedField fields) ]

end TextTags.Core
