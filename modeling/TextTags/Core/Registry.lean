import TextTags.Core.Base
import TextTags.Core.Collection
import TextTags.Core.Element
import TextTags.Core.Time

/-!
# The core registry

All bases and attributes that every program has.
-/

namespace TextTags.Core

open Handler

/-- The attributes of values of every kind. -/
def universalAttributes : List Registration :=
  [ .universal "object_type" .none fun v => .done (some (.element v.kind.name)),
    .universal "debug" .none fun v => .done (some (.element v.debugForm)) ]

/-- The registrations of the core, in order. -/
def history : List Registration :=
  bases ++ elementAttributes ++ listAttributes ++ mapAttributes ++ durationAttributes ++
    timeAttributes ++ queueAttributes ++ scriptAttributes ++ customAttributes ++
    universalAttributes

end TextTags.Core

namespace TextTags.Registry

/-- The registry of the core. -/
def core : Registry := ofHistory Core.history

end TextTags.Registry
