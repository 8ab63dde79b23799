import Mathlib.Data.List.Nodup
import TextTags.Proofs.History
import TextTags.Proofs.Inheritance

/-!
# What a memory has of its declarations

A memory is made by one declaration after another. Of the scripts, the containers and the context
values each name has what was declared for it last. A queue has all the definitions it was ever
given, in order, and of several under one name the first is found, which is the last where a name
was given once.
-/

namespace TextTags

open Text

/-- One declaration to a memory. -/
inductive Declaration
  /-- A queue with definitions, or more of them for a queue that is there. -/
  | queue (id : String) (definitions : List (String × Value))
  | script (name type : String)
  | container (c : Container)
  | context (name : String) (value : Value)

namespace Declaration

/-- The type that a declaration gives the script of a name. -/
def scriptType? (name : String) : Declaration → Option String
  | .script name' type => if lower name = lower name' then some type else none
  | .container c => if lower name = lower c.name then some Memory.customType else none
  | _ => none

/-- The container that is declared under a name. -/
def container? (name : String) : Declaration → Option Container
  | .container c => if lower name = lower c.name then some c else none
  | _ => none

/-- The context value that is declared for a name. -/
def contextValue? (name : String) : Declaration → Option Value
  | .context name' value => if lower name = lower name' then some value else none
  | _ => none

/-- Whether a queue is declared, with or without definitions. -/
def opens (queue : String) : Declaration → Bool
  | .queue id _ => lower queue = lower id
  | _ => false

/-- The definitions that a declaration gives a queue, in order. -/
def definitions (queue : String) : Declaration → List (String × Value)
  | .queue id definitions => if lower queue = lower id then definitions else []
  | _ => []

/-- The values that a history gives a name in a queue, in order. -/
def supplied (history : List Declaration) (queue name : String) : List Value :=
  ((history.flatMap (·.definitions queue)).filter (lower ·.1 = lower name)).map (·.2)

end Declaration

namespace Memory

open Declaration

/-- Takes a declaration. -/
def declare (m : Memory) : Declaration → Memory
  | .queue id definitions => m.withQueue id definitions
  | .script name type => m.withScript name type
  | .container c => m.withContainer c
  | .context name value => m.withContext name value

/-- The memory after a history of declarations. -/
def ofHistory (history : List Declaration) : Memory := history.foldl declare {}

variable {history : List Declaration} {queue : String}

private theorem lookup_cons_or {α : Type} (key : String) (value : α) (table : List (String × α))
    (name : String) :
    ((key, value) :: table).lookup name =
      (if name = key then some value else none).or (table.lookup name) := by
  rw [List.lookup_cons]
  by_cases same : name = key
  · rw [if_pos same, beq_iff_eq.2 same, Option.some_or]
  · rw [if_neg same, beq_false_of_ne same, Option.none_or]

private theorem lookup_scripts_declare (m : Memory) (d : Declaration) (name : String) :
    (m.declare d).scripts.lookup (lower name) =
      (d.scriptType? name).or (m.scripts.lookup (lower name)) := by
  cases d with
  | script | container => exact lookup_cons_or ..
  | queue | context => rfl

private theorem container?_declare (m : Memory) (d : Declaration) (name : String) :
    (m.declare d).container? name = (d.container? name).or (m.container? name) := by
  cases d with
  | container => exact lookup_cons_or ..
  | queue | script | context => rfl

private theorem lookup_context_declare (m : Memory) (d : Declaration) (name : String) :
    (m.declare d).context.lookup (lower name) =
      (d.contextValue? name).or (m.context.lookup (lower name)) := by
  cases d with
  | context => exact lookup_cons_or ..
  | queue | script | container => rfl

private theorem look_ofHistory {α : Type} (look : Memory → Option α)
    (gives : Declaration → Option α)
    (step : ∀ m d, look (m.declare d) = (gives d).or (look m)) (start : look {} = none)
    (history : List Declaration) :
    look (ofHistory history) = (history.filterMap gives).getLast? := by
  rw [ofHistory, History.look_foldl look fun m d _ ↦ step m d, start, Option.or_none,
    List.getLast?_filterMap]

private theorem isSome_definitions?_declare (m : Memory) (d : Declaration) (queue : String) :
    ((m.declare d).definitions? queue).isSome =
      (d.opens queue || (m.definitions? queue).isSome) := by
  cases d with
  | queue id definitions =>
    simp only [declare, withQueue, definitions?, lookup_cons_or, Option.isSome_or, opens]
    split <;> simp [*]
  | script | container | context => rfl

/-- A declaration leaves the definitions of a queue in front of those it adds. -/
theorem getD_definitions?_declare (m : Memory) (d : Declaration) (queue : String) :
    ((m.declare d).definitions? queue).getD [] = (m.definitions? queue).getD [] ++
      (d.definitions queue).map fun e ↦ (lower e.1, e.2) := by
  cases d with
  | queue id definitions =>
    simp only [declare, withQueue, definitions?, lookup_cons_or, Declaration.definitions]
    by_cases same : lower queue = lower id
    · rw [if_pos same, if_pos same, Option.some_or, Option.getD_some, same]
    · rw [if_neg same, if_neg same, Option.none_or, List.map_nil, List.append_nil]
  | script | container | context => exact (List.append_nil _).symm

private theorem isSome_definitions?_foldl (m : Memory) (history : List Declaration)
    (queue : String) :
    ((history.foldl declare m).definitions? queue).isSome =
      (history.any (·.opens queue) || (m.definitions? queue).isSome) := by
  induction history generalizing m with
  | nil => rfl
  | cons d rest ih =>
    rw [List.foldl_cons, ih, isSome_definitions?_declare, List.any_cons, ← Bool.or_assoc,
      Bool.or_comm (rest.any _)]

private theorem getD_definitions?_foldl (m : Memory) (history : List Declaration) (queue : String) :
    ((history.foldl declare m).definitions? queue).getD [] = (m.definitions? queue).getD [] ++
      (history.flatMap (·.definitions queue)).map fun e ↦ (lower e.1, e.2) := by
  induction history generalizing m with
  | nil => exact (List.append_nil _).symm
  | cons d rest ih =>
    rw [List.foldl_cons, ih, getD_definitions?_declare, List.flatMap_cons, List.map_append,
      List.append_assoc]

private theorem getD_definitions?_ofHistory (history : List Declaration) (queue : String) :
    ((ofHistory history).definitions? queue).getD [] =
      (history.flatMap (·.definitions queue)).map fun e ↦ (lower e.1, e.2) :=
  getD_definitions?_foldl {} history queue

private theorem lookup_map_lower (definitions : List (String × Value)) (name : String) :
    (definitions.map fun e ↦ (lower e.1, e.2)).lookup (lower name) =
      ((definitions.filter (lower ·.1 = lower name)).map (·.2)).head? := by
  induction definitions with
  | nil => rfl
  | cons e rest ih =>
    rw [List.map_cons, lookup_cons_or, ih]
    by_cases same : lower e.1 = lower name
    · rw [if_pos same.symm, Option.some_or, List.filter_cons_of_pos (by simpa using same),
        List.map_cons, List.head?_cons]
    · rw [if_neg (Ne.symm same), Option.none_or, List.filter_cons_of_neg (by simpa using same)]

private theorem definition?_ofHistory (history : List Declaration) (queue name : String) :
    (ofHistory history).definition? queue name = (supplied history queue name).head? := by
  have found (m : Memory) :
      m.definition? queue name = ((m.definitions? queue).getD []).lookup (lower name) := by
    unfold definition?
    cases m.definitions? queue <;> rfl
  rw [found, getD_definitions?_ofHistory, lookup_map_lower, supplied]

private theorem definitionNames_ofHistory (history : List Declaration) (queue : String) :
    (ofHistory history).answer (.definitionNames queue) =
      (history.flatMap (·.definitions queue)).map (lower ·.1) := by
  refine (congrArg (List.map (·.1)) (getD_definitions?_ofHistory history queue)).trans ?_
  rw [List.map_map]
  rfl

private theorem count_definitionNames (history : List Declaration) (queue name : String) :
    ((ofHistory history).answer (.definitionNames queue)).count (lower name) =
      (supplied history queue name).length := by
  rw [definitionNames_ofHistory, List.count_eq_countP, List.countP_map,
    List.countP_eq_length_filter, supplied, List.length_map]
  rfl

private theorem nodup_definitionNames_iff (history : List Declaration) (queue : String) :
    ((ofHistory history).answer (.definitionNames queue)).Nodup ↔
      ∀ name, (supplied history queue name).length ≤ 1 := by
  constructor
  · intro once name
    rw [← count_definitionNames]
    exact List.nodup_iff_count_le_one.1 once _
  · intro once
    refine List.nodup_iff_count_le_one.2 fun listed ↦ ?_
    by_cases mem : listed ∈ (ofHistory history).answer (.definitionNames queue)
    · rw [definitionNames_ofHistory] at mem
      obtain ⟨e, -, rfl⟩ := List.mem_map.1 mem
      rw [count_definitionNames]
      exact once e.1
    · rw [List.count_eq_zero_of_not_mem mem]
      exact Nat.zero_le 1

/-- Each name that is listed for a queue is found in it. -/
theorem isSome_definition?_of_mem {listed : String}
    (mem : listed ∈ (ofHistory history).answer (.definitionNames queue)) :
    ((ofHistory history).definition? queue listed).isSome := by
  have lowered : lower listed = listed := by
    rw [definitionNames_ofHistory] at mem
    obtain ⟨e, -, rfl⟩ := List.mem_map.1 mem
    exact lower_lower e.1
  have present : 0 < (supplied history queue listed).length := by
    rw [← count_definitionNames, lowered]
    exact List.count_pos_iff.2 mem
  rw [definition?_ofHistory, List.isSome_head?]
  exact List.ne_nil_of_length_pos present

/-- After a history of declarations, a name has the type of its script, its container and its
context value from the last declaration that gave it one, a container being a script as well.
Scripts and queues exist exactly when they were declared. A definition has the first of the values
that were supplied for it, which is the last if there are no two, and is listed as often as it was
supplied; each name that is listed is found. -/
theorem answer_ofHistory (history : List Declaration) :
    (∀ name, (ofHistory history).answer (.scriptType name) =
      (history.filterMap (·.scriptType? name)).getLast?) ∧
    (∀ name, (ofHistory history).container? name =
        (history.filterMap (·.container? name)).getLast? ∧
      ((ofHistory history).answer (.lineage name)).head? = (ofHistory history).container? name) ∧
    (∀ site name, (ofHistory history).answer (.contextValue site name) =
      (history.filterMap (·.contextValue? name)).getLast?) ∧
    (∀ name, (ofHistory history).answer (.scriptExists name) =
      history.any fun d ↦ (d.scriptType? name).isSome) ∧
    (∀ queue, (ofHistory history).answer (.queueExists queue) = history.any (·.opens queue)) ∧
    (∀ queue name, (ofHistory history).answer (.definition queue name) =
        (supplied history queue name).head? ∧
      ((supplied history queue name).length ≤ 1 →
        (ofHistory history).answer (.definition queue name) =
          (supplied history queue name).getLast?)) ∧
    ∀ queue,
      (∀ listed ∈ (ofHistory history).answer (.definitionNames queue),
        ((ofHistory history).answer (.definition queue listed)).isSome) ∧
      (∀ name, ((ofHistory history).answer (.definitionNames queue)).count (lower name) =
        (supplied history queue name).length) ∧
      (((ofHistory history).answer (.definitionNames queue)).Nodup ↔
        ∀ name, (supplied history queue name).length ≤ 1) := by
  have script (name : String) : (ofHistory history).answer (.scriptType name) =
      (history.filterMap (·.scriptType? name)).getLast? :=
    look_ofHistory (·.scripts.lookup (lower name)) _
      (fun m d ↦ lookup_scripts_declare m d name) rfl history
  refine ⟨script, fun name ↦ ⟨?_, ?_⟩, fun _ name ↦ ?_, fun name ↦ ?_, fun queue ↦ ?_,
    fun queue name ↦ ⟨definition?_ofHistory history queue name, fun once ↦ ?_⟩, fun queue ↦
    ⟨fun _ ↦ isSome_definition?_of_mem, count_definitionNames history queue,
      nodup_definitionNames_iff history queue⟩⟩
  · exact look_ofHistory (·.container? name) _ (fun m d ↦ container?_declare m d name) rfl history
  · exact head?_of_inherits ((ofHistory history).host.inherits_lineageAfter [] name)
  · exact look_ofHistory (·.context.lookup (lower name)) _
      (fun m d ↦ lookup_context_declare m d name) rfl history
  · have exist : (ofHistory history).answer (.scriptExists name) =
        ((ofHistory history).answer (.scriptType name)).isSome := rfl
    rw [exist, script, Bool.eq_iff_iff, List.getLast?_isSome, Ne, List.filterMap_eq_nil_iff,
      List.any_eq_true]
    simp only [Option.isSome_iff_ne_none, not_forall, exists_prop]
  · exact (isSome_definitions?_foldl {} history queue).trans (Bool.or_false _)
  · refine (definition?_ofHistory history queue name).trans ?_
    -- Of one entry at most, the first is the last.
    match supplied history queue name, once with
    | [], _ => rfl
    | [_], _ => rfl

/-- A queue that is given more definitions, a script that a container takes over and a context value
that is replaced, each under its name in another letter case. -/
def redeclared : List Declaration :=
  [.queue "Main" [("Target", .element "bob")], .script "Pet" "task",
    .context "Size" (.element "1"), .queue "MAIN" [("N", .element "3")],
    .container ⟨"PET", none, [("legs", "4")]⟩, .context "SIZE" (.element "2")]

/-- A history in which each sort of declaration is made twice under one name. -/
theorem answer_ofHistory_redeclared :
    (ofHistory redeclared).answer (.scriptType "pet") = some customType ∧
    (ofHistory redeclared).container? "pet" = some ⟨"PET", none, [("legs", "4")]⟩ ∧
    (ofHistory redeclared).answer (.contextValue {} "size") = some (.element "2") ∧
    (ofHistory redeclared).answer (.definition "main" "TARGET") = some (.element "bob") ∧
    (ofHistory redeclared).answer (.definition "main" "n") = some (.element "3") := by
  obtain ⟨script, container, context, -, -, definition, names⟩ := answer_ofHistory redeclared
  have listed : (ofHistory redeclared).answer (.definitionNames "main") = ["target", "n"] := rfl
  have once : ∀ name, (supplied redeclared "main" name).length ≤ 1 := by
    rw [← (names "main").2.2, listed]
    decide
  have type : (redeclared.filterMap (·.scriptType? "pet")).getLast? = some customType := rfl
  have pet : (redeclared.filterMap (·.container? "pet")).getLast? =
      some ⟨"PET", none, [("legs", "4")]⟩ := rfl
  have size : (redeclared.filterMap (·.contextValue? "size")).getLast? = some (.element "2") := rfl
  have target : (supplied redeclared "main" "TARGET").getLast? = some (.element "bob") := rfl
  have number : (supplied redeclared "main" "n").getLast? = some (.element "3") := rfl
  exact ⟨type ▸ script "pet", pet ▸ (container "pet").1, size ▸ context {} "size",
    target ▸ (definition "main" "TARGET").2 (once _), number ▸ (definition "main" "n").2 (once _)⟩

/-- A queue that is given a definition again, under its name in another letter case. -/
def givenAgain : List Declaration :=
  [.queue "q" [("a", .element "1")], .queue "Q" [("A", .element "2")]]

/-- A definition that is given again stays what it was, and is listed twice. -/
theorem answer_ofHistory_again :
    (¬∀ (history : List Declaration) (queue name : String),
      (ofHistory history).answer (.definition queue name) =
        (supplied history queue name).getLast?) ∧
    ¬∀ (history : List Declaration) (queue : String),
      ((ofHistory history).answer (.definitionNames queue)).Nodup := by
  have first : (ofHistory givenAgain).answer (.definition "q" "a") = some (.element "1") := rfl
  have last : (supplied givenAgain "q" "a").getLast? = some (.element "2") := rfl
  have listed : (ofHistory givenAgain).answer (.definitionNames "q") = ["a", "a"] := rfl
  constructor
  · intro latest
    have same := first.symm.trans ((latest givenAgain "q" "a").trans last)
    exact absurd same (by simp)
  · intro once
    have nodup := once givenAgain "q"
    rw [listed] at nodup
    exact absurd nodup (by decide)

end Memory

end TextTags
