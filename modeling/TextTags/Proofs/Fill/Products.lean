import TextTags.Proofs.Fill.Opening
import TextTags.Proofs.Fill.WellFormed
import TextTags.Proofs.Overflow
import TextTags.Proofs.Registry.Tables

/-!
# What filling produces

The values that handlers give while a text is filled, in the order in which they are given: those of
a nested text come before that of the handler that had it filled. With the core, all of them are of
finite durations up to the first sum or difference that is past the range of numbers.
-/

namespace TextTags

/-- What is produced from a world on. -/
abbrev Products := World → List Product

/-- The products of what follows a run. -/
def Run.after {α : Type} (x : Run α) (next : α → Products) : Products := fun w ↦
  match x w with
  | .ok a u => next a u
  | .error _ _ => []

namespace Frame

variable {α : Type} (f : Frame) (nested : String → Products)

/-- The text that is filled for the answer to a query, if one is. -/
def fills? (p : Progress) (w : World) : Query → Option String
  | .param offset =>
    match f.scope.passed? w.clock with
    | some _ => none
    | none => (f.cursor p).param? offset
  | .fill text => some text
  | _ => none

/-- The products of a query. -/
def answerProducts (p : Progress) (query : Query) : Products := fun w ↦
  match f.fills? p w query with
  | some text => nested text w
  | none => []

/-- The products of a handler on its way. -/
def runProducts : Handler α → Progress → Products
  | .done _, _, _ => []
  | .fault _, _, _ => []
  | .ask query next, p, w =>
    f.answerProducts nested p query w ++
      (f.answer p query).after (fun (answer, p) ↦ runProducts (next answer) p) w

/-- The products of a call: those on the way, and the value if it gives one. -/
def callProducts (c : Call) : List Product :=
  f.runProducts nested c.handler c.progress ((Run.emit (.called c.callee)).last c.world) ++
    match f.callEnd c with
    | .ok (some v, _) _ => [⟨c.callee, v⟩]
    | _ => []

/-- The products of a resolution. -/
def products : Products := fun w ↦ (f.calls w).flatMap (f.callProducts nested)

end Frame

namespace Env

variable (env : Env) (fill : Scope → String → Run Value) (nested : Scope → String → Products)

end Env

/-! ## Up to the first overflow -/

/-- Products that are finite up to the first overflow. -/
def Sound : List Product → Prop
  | [] => True
  | p :: rest => p.Overflows ∨ p.value.Finite ∧ Sound rest

private theorem Sound.append {products more : List Product} (h : Sound products)
    (next : (∀ p ∈ products, p.value.Finite) → Sound more) : Sound (products ++ more) := by
  induction products with
  | nil => exact next (by simp)
  | cons p rest ih =>
    rcases h with overflows | ⟨finite, sound⟩
    · exact .inl overflows
    · exact .inr ⟨finite, ih sound fun all ↦ next (List.forall_mem_cons.2 ⟨finite, all⟩)⟩

/-- As long as nothing overflows, all products are finite. -/
theorem Sound.finite {products before : List Product} (h : Sound products)
    (pre : before <+: products) (hno : ∀ p ∈ before, ¬ p.Overflows) :
    ∀ p ∈ before, p.value.Finite := by
  induction before generalizing products with
  | nil => simp
  | cons p rest ih =>
    obtain ⟨more, rfl⟩ := pre
    obtain ⟨first, others⟩ := List.forall_mem_cons.1 hno
    obtain ⟨finite, sound⟩ := h.resolve_left first
    exact List.forall_mem_cons.2 ⟨finite, ih sound (List.prefix_append rest more) others⟩

namespace Run

variable {α β : Type} {x : Run α} {f : α → Run β}

/-- Whether the products of a run are finite up to the first overflow, and what it gives is good if
there is none. -/
def Yields (good : α → Prop) (products : Products) (x : Run α) : Prop :=
  ∀ w, Sound (products w) ∧
    ((∀ p ∈ products w, p.value.Finite) → ∀ a u, x w = .ok a u → good a)

namespace Yields

variable {good : α → Prop} {good' : β → Prop} {products : Products} {next : α → Products}

private theorem silent (h : x.Gives good) :
    x.Yields good fun _ ↦ [] := fun w ↦ ⟨trivial, fun _ ↦ h w⟩

private theorem bind (h : x.Yields good products)
    (then' : ∀ a, good a → (f a).Yields good' (next a)) :
    (x >>= f).Yields good' fun w ↦ products w ++ x.after next w := by
  intro w
  obtain ⟨sound, first⟩ := h w
  unfold after
  dsimp only
  cases ends : x w with
  | ok a u =>
    refine ⟨sound.append fun all ↦ (then' a (first all a u ends) u).1, fun all b v eq ↦ ?_⟩
    obtain ⟨allFirst, allNext⟩ := List.forall_mem_append.1 all
    rw [bind_of_ok ends] at eq
    exact (then' a (first allFirst a u ends) u).2 allNext b v eq
  | error stop u =>
    refine ⟨sound.append fun _ ↦ trivial, fun _ b v eq ↦ ?_⟩
    rw [bind_of_error ends] at eq
    contradiction

/-- A run that produces something only after its first step. -/
theorem after (h : x.Gives good) (then' : ∀ a, good a → (f a).Yields good' (next a)) :
    (x >>= f).Yields good' (x.after next) :=
  (silent h).bind then'

/-- A run that produces nothing after its first step. -/
theorem before (h : x.Yields good products) (then' : ∀ a, good a → (f a).Gives good') :
    (x >>= f).Yields good' products := by
  intro w
  obtain ⟨sound, first⟩ := h w
  refine ⟨sound, fun all b v eq ↦ ?_⟩
  cases ends : x w with
  | ok a u =>
    rw [bind_of_ok ends] at eq
    exact then' a (first all a u ends) u b v eq
  | error stop u =>
    rw [bind_of_error ends] at eq
    contradiction

private theorem imp {good' : α → Prop} (h : x.Yields good products) (le : ∀ a, good a → good' a) :
    x.Yields good' products :=
  fun w ↦ ⟨(h w).1, fun all a u ends ↦ le a ((h w).2 all a u ends)⟩

private theorem and {good' : α → Prop} (h : x.Yields good products) (h' : x.Gives good') :
    x.Yields (fun a ↦ good a ∧ good' a) products :=
  fun w ↦ ⟨(h w).1, fun all a u ends ↦ ⟨(h w).2 all a u ends, h' w a u ends⟩⟩

private theorem contain {recover : String → α} (h : x.Yields good products)
    (recovered : ∀ message, good (recover message)) : (x.contain recover).Yields good products := by
  intro w
  obtain ⟨sound, first⟩ := h w
  refine ⟨sound, fun all a v eq ↦ ?_⟩
  unfold Run.contain at eq
  cases ends : x w with
  | ok b u =>
    rw [ends] at eq
    cases eq
    exact first all a v ends
  | error stop u =>
    rw [ends] at eq
    cases stop with
    | fault message =>
      cases eq
      exact recovered message
    | exhausted => contradiction

end Yields

end Run

open Run

/-! ## Resolutions -/

namespace Frame

variable {α : Type} {f : Frame} {nested : String → Products}

end Frame

/-- An outcome whose value is of finite durations, if it has one. -/
def Outcome.Finite : Outcome → Prop
  | fulfilled v _ => v.Finite
  | halted _ => True

private theorem Outcome.Finite.settled {outcome : Outcome} (finite : outcome.Finite) (env : Env)
    (s : Scope) (chain : Chain) (start stop : Nat) :
    (env.settled s chain start stop outcome).Finite := by
  unfold Env.settled
  split
  · split
    · trivial
    · exact finite
  · exact finite

/-- The terms of finite durations: values have no others, and handlers give no others but for an
overflow. -/
def Terms.finite : Terms where
  value := Value.Finite
  handler callee handler := handler.Gives fun v ↦ v.Finite ∨ Product.Overflows ⟨callee, v⟩

namespace Plan

variable {α : Type} {f : Frame} {good : Nat → α → Prop} {nested : String → Products} {n : Nat}

private theorem Ended.finite {chain : Chain} {outcome : Outcome}
    (h : Ended .finite chain n outcome) :
    outcome.Finite := by
  cases outcome with
  | fulfilled v count => exact h.value v count rfl
  | halted halt => trivial

end Plan

/-! ## Texts -/

namespace Env

variable {env : Env} {fill : Scope → String → Run Value} {nested : Scope → String → Products}

end Env

end TextTags
