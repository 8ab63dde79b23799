import TextTags.Host.Custom

/-!
# A host in memory

Queues with definitions, scripts, containers and context values, all found by name whatever its
letter case. A later declaration of a name hides an earlier one; the definitions of a queue are
added to those it has.
-/

namespace TextTags

open Text

/-- What a host in memory holds, under lower-case names; of two pairs with one name the first
counts. -/
structure Memory where
  queues : List (String × List (String × Value)) := []
  scripts : List (String × String) := []
  containers : List (String × Container) := []
  context : List (String × Value) := []

namespace Memory

/-- The definitions of a queue, in the order in which they were added. -/
def definitions? (m : Memory) (queue : String) : Option (List (String × Value)) :=
  m.queues.lookup (lower queue)

/-- Adds a queue, or definitions to one that is there. -/
def withQueue (m : Memory) (id : String) (definitions : List (String × Value)) : Memory :=
  let added := definitions.map fun d => (lower d.1, d.2)
  { m with queues := (lower id, (m.definitions? id).getD [] ++ added) :: m.queues }

/-- Adds a script with the type of its container. -/
def withScript (m : Memory) (name type : String) : Memory :=
  { m with scripts := (lower name, type) :: m.scripts }

/-- The type of the script that a container of custom objects also is. -/
def customType : String := "custom"

/-- Adds a container, which is also a script. -/
def withContainer (m : Memory) (c : Container) : Memory :=
  { m.withScript c.name customType with containers := (lower c.name, c) :: m.containers }

/-- Adds a context value. -/
def withContext (m : Memory) (name : String) (value : Value) : Memory :=
  { m with context := (lower name, value) :: m.context }

/-- The container of a name. -/
def container? (m : Memory) (name : String) : Option Container :=
  m.containers.lookup (lower name)

/-- The names that containers inherit are among those of the containers in the memory. -/
theorem lower_mem_inherited (m : Memory) {name parent : String} {c : Container}
    (found : m.container? name = some c) (next : c.inherit = some parent) :
    lower parent ∈ m.containers.filterMap fun e => e.2.inherit.map lower := by
  obtain ⟨before, after, eq, -⟩ := List.lookup_eq_some_iff.1 found
  exact List.mem_filterMap.2 ⟨(lower name, c), by simp [eq], by rw [next]; rfl⟩

/-- The value of a definition: the one added first under its name. -/
def definition? (m : Memory) (queue name : String) : Option Value := do
  (← m.definitions? queue).lookup (lower name)

/-- The host that answers from memory. -/
def host (m : Memory) : Host where
  queueExists id := (m.definitions? id).isSome
  definition := m.definition?
  definitionNames queue := ((m.definitions? queue).getD []).map (·.1)
  scriptExists name := (m.scripts.lookup (lower name)).isSome
  scriptType name := m.scripts.lookup (lower name)
  container := m.container?
  contextValue _ name := m.context.lookup (lower name)
  inherited := m.containers.filterMap fun e => e.2.inherit.map lower
  lower_mem_inherited found next := m.lower_mem_inherited found next

/-- The answer to a question. -/
def answer (m : Memory) : (l : Lookup) → l.Answer := m.host.answer

/-- The object of a container. -/
def object? (m : Memory) (name : String) : Option Value :=
  (objectOf? (m.host.lineage name)).map fun (name, fields) => .custom name fields

end Memory

end TextTags
