import TextTags.Host.Lookup

/-!
# Custom objects and conversion

A custom object takes its fields from its container and from the containers this inherits from, the
nearest declaration winning. A value is converted to another kind by reading its identity; queues,
scripts and objects ask the host for what the text names.
-/

namespace TextTags

open Text

/-- The default fields of one container, under lower-case names. -/
def Container.defaults (c : Container) : List (String × Value) :=
  c.fields.map fun f => (lower f.1, .element f.2)

/-- The fields that a line of containers gives, the farthest laid down first. -/
def layeredFields : List Container → Entries Value
  | [] => []
  | c :: farther => Entries.insertAll (layeredFields farther) c.defaults

/-- The name and the fields of the object of a line of containers. -/
def objectOf? : List Container → Option (String × Entries Value)
  | [] => none
  | c :: farther => some (c.name, layeredFields (c :: farther))

namespace Kind

variable {m : Type → Type} [Monad m]

/-- Reads a reference: a name after its mark is taken at its word, a bare name must exist. -/
def readReference (mark : List Char) (exist : m Bool) (make : String → Value) (text : String) :
    m (Option Value) :=
  match dropStart? mark text.toList with
  | some [] => pure none
  | some name => pure (some (make (.ofList name)))
  | none => do
    let found ← exist
    pure (if found then some (make text) else none)

/-- Reads a custom object: the fields of its container, with those of its identity over them. -/
def readCustom (ask : (l : Lookup) → m l.Answer) (text : String) (draw : Draws) :
    m (Option Value) :=
  match Value.customOfText? text draw with
  | none => do
    let line ← ask (.lineage text)
    pure ((objectOf? line).map fun (name, fields) => .custom name fields)
  | some (container, stored) => do
    let line ← ask (.lineage container)
    let (name, fields) := (objectOf? line).getD (container, [])
    pure (some (.custom name (Entries.insertAll fields stored)))

/-- Reads text as a value of one kind. -/
def read (ask : (l : Lookup) → m l.Answer) (kind : Kind) (text : String)
    (draw : Draws := .least) : m (Option Value) :=
  match kind with
  | .element => pure (some (.element text))
  | .list => pure (some (.list (Value.itemsOfText text draw)))
  | .map => pure ((Value.entriesOfText? text draw).map .map)
  | .duration => pure ((Duration.ofText? text draw).map .duration)
  | .time => pure ((Time.ofText? text).map .time)
  | .queue => readReference ['q', '@'] (ask (.queueExists text)) .queue text
  | .script => readReference ['s', '@'] (ask (.scriptExists text)) .script text
  | .custom => readCustom ask text draw

/-- A value as one of a kind: itself where it is of that kind, else what its identity reads as. -/
def convert (ask : (l : Lookup) → m l.Answer) (kind : Kind) (v : Value)
    (draw : Draws := .least) : m (Option Value) :=
  if v.kind = kind then pure (some v) else read ask kind v.identity draw

end Kind

end TextTags
