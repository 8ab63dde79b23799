import TextTags.Proofs.Fill.Literal
import TextTags.Proofs.Registry.Lookup

/-!
# Attributes with a parameter

A segment that names an attribute of the core makes of a value what the handler of the attribute
makes of it and of the filled parameter.
-/

namespace TextTags.Frame

open Handler Run

variable {f : Frame} {clock : Nat} {p : Progress} {s : Segment} {raw : String} {v : Value}

/-- A segment with a parameter gives what the attribute that it names gives. -/
theorem dispatch_attribute {x result : Value} {names : List String} {arity : Arity}
    {handler : ValueHandler} (core : f.env.registry = .core)
    (known : .attributes x.kind names arity handler ∈ Core.history)
    (present : (f.cursor p).segment? 0 = some s) (named : s.key ∈ names.map Text.lower)
    (param : s.param = some raw) (run : GivesAt clock (f.run (handler x) p) (some result, p)) :
    GivesAt clock (f.dispatch x p) (.ok result, p) := by
  have found : Registry.core.attribute? x.kind s.key = some ⟨s.key, arity, handler⟩ :=
    Registry.attribute?_core known (if_pos ⟨rfl, named⟩)
  have there : (f.cursor p).param? 0 = some raw := by
    simp [Cursor.param?, present, param]
  unfold dispatch
  rw [present]
  dsimp only
  rw [core, found]
  simp only [apply, Cursor.hasParam, there, Option.isSome_some, Bool.not_true, Bool.false_eq_true,
    and_false, if_false]
  exact (call_givesAt run).bind (GivesAt.pure _)

variable (core : f.env.registry = .core) (time : f.scope.passed? clock = none)
  (present : (f.cursor p).segment? 0 = some s) (param : s.param = some raw)
  (fill : GivesAt clock (f.fill raw) v)
include time present param fill

/-- What is computed from the text of the parameter. -/
theorem paramText_ofOption_givesAt {compute : String → Option Value} {result : Value}
    (computed : compute v.asElement = some result) :
    GivesAt clock (f.run (do
      let text ← Attempt.paramText 0
      .ofOption (compute text) : Attempt Value) p) (some result, p) := by
  have there : (f.cursor p).param? 0 = some raw := by
    simp [Cursor.param?, present, param]
  refine attempt_givesAt (paramText_givesAt time there fill) ?_
  rw [computed]
  exact GivesAt.pure _

include core

/-- An attribute of elements with a parameter gives what it makes of the element and the filled
parameter as texts. -/
theorem dispatch_elementWith {x name : String} (key : s.key = Text.lower name)
    {compute : String → String → Option Value}
    (known : Core.elementWith name compute ∈ Core.elementAttributes) {result : Value}
    (computed : compute x v.asElement = some result) :
    GivesAt clock (f.dispatch (.element x) p) (.ok result, p) := by
  have mem : Core.elementWith name compute ∈ Core.history := by
    simp only [Core.history, List.mem_append, known, true_or, or_true]
  exact dispatch_attribute core mem present (by simp [key]) param
    (paramText_ofOption_givesAt time present param fill computed)

/-- An attribute of lists with a parameter gives what it makes of the items and the filled parameter
as text. -/
theorem dispatch_listWith {items : List Value} {name : String} (key : s.key = Text.lower name)
    {compute : List Value → String → Option Value}
    (known : Core.listWith name compute ∈ Core.listAttributes) {result : Value}
    (computed : compute items v.asElement = some result) :
    GivesAt clock (f.dispatch (.list items) p) (.ok result, p) := by
  have mem : Core.listWith name compute ∈ Core.history := by
    simp only [Core.history, List.mem_append, known, true_or, or_true]
  exact dispatch_attribute core mem present (by simp [key]) param
    (paramText_ofOption_givesAt time present param fill computed)

end TextTags.Frame
