import TextTags.Host.Context
import TextTags.Value.Reading

/-!
# The host

Queues, scripts, containers and context values belong to the program around. They are reached by
look-ups alone, each by name at the moment its answer matters.
-/

namespace TextTags

open Text

/-- A declaration of custom objects: default fields, and the container whose fields it extends. -/
structure Container where
  name : String
  inherit : Option String := none
  fields : List (String × String) := []
deriving DecidableEq

/-- A question to the host. -/
inductive Lookup
  | queueExists (id : String)
  /-- The value of a definition of a queue. -/
  | definition (queue name : String)
  | definitionNames (queue : String)
  | scriptExists (name : String)
  /-- The type of the container of a script. -/
  | scriptType (name : String)
  /-- A container and those it inherits from, nearest first. -/
  | lineage (container : String)
  /-- The value of a name in the context of a place. -/
  | contextValue (site : Site) (name : String)
deriving DecidableEq

/-- The type of the answer to a question. -/
abbrev Lookup.Answer : Lookup → Type
  | queueExists _ => Bool
  | definition _ _ => Option Value
  | definitionNames _ => List String
  | scriptExists _ => Bool
  | scriptType _ => Option String
  | lineage _ => List Container
  | contextValue _ _ => Option Value

/-- The services of the program around, with an answer for each that a program does not have. -/
structure Services where
  queueExists : String → Bool := fun _ => false
  definition : String → String → Option Value := fun _ _ => none
  definitionNames : String → List String := fun _ => []
  scriptExists : String → Bool := fun _ => false
  scriptType : String → Option String := fun _ => none
  /-- The container of a name: one link of a line of containers. -/
  container : String → Option Container := fun _ => none
  contextValue : Site → String → Option Value := fun _ _ => none
  /-- Whether a chain is resolved under the time limit. -/
  timeBoxes : Context → Bool := fun c => c.debug || c.timeBoxWhenSilent

/-- Where there are no containers, none inherits a name. -/
theorem lower_mem_of_noContainers {name parent : String} {c : Container}
    (found : (fun _ : String => (none : Option Container)) name = some c)
    (_ : c.inherit = some parent) : lower parent ∈ ([] : List String) :=
  nomatch found

/-- The program around. Its containers inherit finitely many names, so that every way from one
container to the next comes to an end. -/
structure Host extends Services where
  /-- The names that containers inherit, in lower case. -/
  inherited : List String := []
  lower_mem_inherited : ∀ {name parent : String} {c : Container},
    container name = some c → c.inherit = some parent → lower parent ∈ inherited := by
      exact @lower_mem_of_noContainers

namespace Host

variable (h : Host)

/-- How many links a way from a name on can still have: one for each inherited name that has not
come before, and one for the name itself if no container inherits it. -/
def linksLeft (seen : List String) (name : String) : Nat :=
  (h.inherited.filter (!seen.contains ·)).length + if lower name ∈ h.inherited then 0 else 1

private theorem length_filter_unseen_lt {names seen : List String} {name : String}
    (mem : name ∈ names) (new : name ∉ seen) :
    (names.filter (!(name :: seen).contains ·)).length <
      (names.filter (!seen.contains ·)).length := by
  have again : names.filter (!(name :: seen).contains ·) =
      (names.filter (!seen.contains ·)).filter (· != name) := by
    rw [List.filter_filter]
    refine List.filter_congr fun other _ => ?_
    rw [List.contains_cons, Bool.not_or, bne]
  rw [again]
  refine List.length_filter_lt_length_iff_exists.2 ⟨name, ?_, by simp⟩
  simpa [new] using mem

private theorem linksLeft_lt {seen : List String} {name parent : String} {c : Container}
    (new : lower name ∉ seen) (found : h.container name = some c)
    (next : c.inherit = some parent) :
    h.linksLeft (lower name :: seen) parent < h.linksLeft seen name := by
  rw [linksLeft, linksLeft, if_pos (h.lower_mem_inherited found next)]
  split
  · next mem => exact Nat.add_lt_add_right (length_filter_unseen_lt mem new) 0
  · next other =>
    refine Nat.lt_succ_of_le (Nat.le_of_eq (congrArg List.length ?_))
    refine List.filter_congr fun inherited mem => ?_
    have ne : inherited ≠ lower name := fun eq => other (eq ▸ mem)
    rw [List.contains_cons, beq_false_of_ne ne, Bool.false_or]

/-- The containers from a name on, each looked up by the name that the one before inherits. The way
ends where nothing is inherited, where no container has the name, and where the name, whatever its
letter case, has come before. -/
def lineageAfter (seen : List String) (name : String) : List Container :=
  if _ : lower name ∈ seen then []
  else
    match _ : h.container name with
    | none => []
    | some c =>
      match _ : c.inherit with
      | none => [c]
      | some parent => c :: lineageAfter (lower name :: seen) parent
termination_by h.linksLeft seen name
decreasing_by exact h.linksLeft_lt ‹_› ‹_› ‹_›

/-- A container and those it inherits from, nearest first. -/
def lineage (name : String) : List Container := h.lineageAfter [] name

/-- The answer to a question. -/
def answer : (l : Lookup) → l.Answer
  | .queueExists id => h.queueExists id
  | .definition queue name => h.definition queue name
  | .definitionNames queue => h.definitionNames queue
  | .scriptExists name => h.scriptExists name
  | .scriptType name => h.scriptType name
  | .lineage container => h.lineage container
  | .contextValue site name => h.contextValue site name

end Host

end TextTags
