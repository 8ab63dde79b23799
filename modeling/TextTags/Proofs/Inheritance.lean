import TextTags.Host.Memory
import TextTags.Proofs.Entries
import TextTags.Proofs.Lineage
import TextTags.Proofs.Text.Case

/-!
# Inheritance of fields

The names that containers inherit lead from one container to the next, and whatever they are the
line ends. An object has every field that is declared on its line, and for each the value that is
declared nearest.
-/

namespace TextTags

open Text

namespace Container

/-- The value that a container declares for a field; of several declarations the last counts. -/
def declared? (c : Container) (field : String) : Option String :=
  (c.fields.filter fun f ↦ lower f.1 = lower field).getLast?.map (·.2)

private theorem isSome_declared?_iff {c : Container} {field : String} :
    (c.declared? field).isSome ↔ ∃ f ∈ c.fields, lower f.1 = lower field := by
  rw [declared?, Option.isSome_map, List.getLast?_isSome, ne_eq, List.filter_eq_nil_iff]
  simp only [decide_eq_true_eq, Classical.not_forall, Classical.not_not, exists_prop]

/-- Names of fields in lower case are the same key only if they are the same. -/
theorem sameKey_lower_iff {a b : String} :
    Entries.sameKey (lower a) (lower b) ↔ lower a = lower b := by
  rw [Entries.sameKey_iff, asciiLowerChars_lower, asciiLowerChars_lower, String.toList_inj]

private theorem get?_insertAll_defaults (c : Container) (es : Entries Value) (field : String) :
    (es.insertAll c.defaults).get? (lower field) =
      ((c.declared? field).map .element).or (es.get? (lower field)) := by
  have same : (fun p : String × Value ↦ Entries.sameKey p.1 (lower field)) ∘
      (fun f : String × String ↦ (lower f.1, Value.element f.2)) =
        fun f ↦ decide (lower f.1 = lower field) := by
    funext f
    rw [Function.comp_apply, Bool.eq_iff_iff, sameKey_lower_iff, decide_eq_true_eq]
  rw [Entries.get?_insertAll, defaults, List.filter_map, same, List.getLast?_map, Option.map_map,
    declared?, Option.map_map]
  rfl

end Container

/-- The value of a field is the one declared nearest. -/
theorem get?_layeredFields (line : List Container) (field : String) :
    (layeredFields line).get? (lower field) =
      (line.findSome? (·.declared? field)).map .element := by
  induction line with
  | nil => rfl
  | cons c farther ih =>
    rw [layeredFields, c.get?_insertAll_defaults, ih, List.findSome?_cons]
    cases c.declared? field <;> rfl

/-- The default fields of a line have distinct keys. -/
theorem distinct_layeredFields (line : List Container) : (layeredFields line).Distinct := by
  induction line with
  | nil => exact .nil
  | cons c farther ih => exact ih.insertAll c.defaults

/-- A default field of a line is declared by one of its containers. -/
theorem exists_of_mem_layeredFields {line : List Container} {e : String × Value}
    (h : e ∈ layeredFields line) : ∃ c ∈ line, ∃ f ∈ c.fields, lower f.1 = e.1 := by
  induction line generalizing e with
  | nil => contradiction
  | cons c farther ih =>
    rcases Entries.key_of_mem_insertAll h with ⟨p, mem, eq⟩ | ⟨e', mem, eq⟩
    · obtain ⟨f, declared, rfl⟩ := List.mem_map.1 mem
      exact ⟨c, List.mem_cons_self, f, declared, eq⟩
    · obtain ⟨c', mem', f, declared, eq'⟩ := ih mem
      exact ⟨c', List.mem_cons_of_mem _ mem', f, declared, eq'.trans eq⟩

/-- The keys are the names in lower case that are declared anywhere on the line. -/
theorem mem_keys_layeredFields_iff {line : List Container} {key : String} :
    key ∈ (layeredFields line).keys ↔ ∃ c ∈ line, ∃ f ∈ c.fields, lower f.1 = key := by
  constructor
  · intro mem
    obtain ⟨e, there, rfl⟩ := List.mem_map.1 mem
    exact exists_of_mem_layeredFields there
  · rintro ⟨c, mem, f, declared, rfl⟩
    have declares : (line.findSome? (·.declared? f.1)).isSome :=
      List.findSome?_isSome_iff.2 ⟨c, mem, Container.isSome_declared?_iff.2 ⟨f, declared, rfl⟩⟩
    obtain ⟨value, found⟩ := Option.isSome_iff_exists.1 declares
    have there := get?_layeredFields line f.1
    rw [found] at there
    obtain ⟨e, found, -⟩ := Option.map_eq_some_iff.1 there
    have same := List.find?_some found
    have mem' := List.mem_of_find?_eq_some found
    -- The entry found has a key in lower case as well, so that it is this one.
    obtain ⟨-, -, f', -, eq⟩ := exists_of_mem_layeredFields mem'
    rw [← eq, Container.sameKey_lower_iff] at same
    rw [← same, eq]
    exact List.mem_map_of_mem mem'

namespace Memory

variable {m : Memory}

/-- A line begins with the container of the name if there is one. -/
theorem head?_of_inherits {name : String} {line : List Container}
    (h : Container.Inherits m.container? [] (some name) line) : line.head? = m.container? name := by
  cases h with
  | repeated old => exact absurd old List.not_mem_nil
  | missing _ h => exact h.symm
  | link _ found => exact found.symm

private theorem object?_of_inherits {name : String} {line : List Container}
    (h : Container.Inherits m.container? [] (some name) line) :
    m.object? name = (m.container? name).map fun c ↦ .custom c.name (layeredFields line) := by
  have eq : line = m.host.lineage name := Host.inherits_iff.1 h
  rw [← head?_of_inherits h, object?, ← eq]
  cases line <;> rfl

/-- An object has its fields from the line of its container, and there is one whenever there is the
container. The line ends for every memory; a field has the value declared nearest on it, and is
listed once. -/
theorem object?_inherits (m : Memory) (name : String) :
    (∃! line, Container.Inherits m.container? [] (some name) line) ∧
    (m.object? name = none ↔ m.container? name = none) ∧
    ∀ c line, m.container? name = some c → Container.Inherits m.container? [] (some name) line →
      ∃ fields : Entries Value, m.object? name = some (.custom c.name fields) ∧
        (∀ field, fields.get? (lower field) =
          (line.findSome? (·.declared? field)).map .element) ∧
        fields.keys.Nodup ∧
        ∀ key, key ∈ fields.keys ↔ ∃ c ∈ line, ∃ f ∈ c.fields, lower f.1 = key := by
  have way : Container.Inherits m.container? [] (some name) (m.host.lineage name) :=
    m.host.inherits_lineageAfter [] name
  refine ⟨⟨_, way, fun line other ↦ other.unique way⟩, ?_, ?_⟩
  · rw [object?_of_inherits way, Option.map_eq_none_iff]
  · intro c line found way
    refine ⟨layeredFields line, ?_, get?_layeredFields line,
      (distinct_layeredFields line).nodup_keys, fun _ ↦ mem_keys_layeredFields_iff⟩
    rw [object?_of_inherits way, found, Option.map_some]

/-- Two containers that inherit each other, with a field declared twice in one and again in the
other. -/
def looped : Memory :=
  (({} : Memory).withContainer ⟨"a", some "B", [("x", "1"), ("X", "2")]⟩).withContainer
    ⟨"b", some "A", [("Y", "3"), ("x", "4")]⟩

/-- Two containers that inherit each other, looked up by a name in other letter case. -/
theorem object?_inherits_looped :
    looped.object? "c" = none ∧
    ∃ fields : Entries Value, looped.object? "A" = some (.custom "a" fields) ∧
      fields.get? (lower "X") = some (.element "2") ∧
      fields.get? (lower "y") = some (.element "3") ∧ fields.keys.Nodup := by
  have a : looped.container? "A" = some ⟨"a", some "B", [("x", "1"), ("X", "2")]⟩ := by
    decide +kernel
  have b : looped.container? "B" = some ⟨"b", some "A", [("Y", "3"), ("x", "4")]⟩ := by
    decide +kernel
  have way : Container.Inherits looped.container? [] (some "A") [_, _] :=
    .link List.not_mem_nil a (.link (by decide +kernel) b (.repeated (by decide +kernel)))
  obtain ⟨fields, object, values, once, -⟩ := (object?_inherits looped "A").2.2 _ _ a way
  refine ⟨(object?_inherits looped "c").2.1.2 (by decide +kernel), fields, object, ?_, ?_, once⟩
  · exact (values "X").trans (Option.map_eq_some_iff.2 ⟨"2", by decide +kernel, rfl⟩)
  · exact (values "y").trans (Option.map_eq_some_iff.2 ⟨"3", by decide +kernel, rfl⟩)

end Memory

end TextTags
