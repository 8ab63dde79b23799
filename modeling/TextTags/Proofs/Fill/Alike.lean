import TextTags.Fill.Text
import TextTags.Proofs.Fill.Run

/-!
# Runs alike

Two computations are alike when from worlds that belong together they come to values and worlds that
belong together, or break down in the same way. The rules follow the steps of a computation, so that
two programs of one shape are compared step by step.
-/

namespace TextTags

namespace Run

variable {α β γ δ : Type} {R : World → World → Prop} {V : α → β → Prop} {W : γ → δ → Prop}

/-- Ends that belong together: related values, or one and the same breakdown. -/
inductive EndsAlike (R : World → World → Prop) (V : α → β → Prop) :
    EStateM.Result Stop World α → EStateM.Result Stop World β → Prop
  | ok {a : α} {b : β} {w w' : World} (value : V a b) (world : R w w') :
    EndsAlike R V (.ok a w) (.ok b w')
  | error {stop : Stop} {w w' : World} (world : R w w') :
    EndsAlike R V (.error stop w) (.error stop w')

/-- Ends that belong together still do where values that do are made of breakdowns. -/
theorem EndsAlike.contain {x : Run α} {y : Run β} {w w' : World} (h : EndsAlike R V (x w) (y w'))
    {recover : String → α} {recover' : String → β} (recovered : ∀ m, V (recover m) (recover' m)) :
    EndsAlike R V (x.contain recover w) (y.contain recover' w') := by
  unfold Run.contain
  generalize x w = r, y w' = r' at h ⊢
  cases h with
  | ok value worlds => exact .ok value worlds
  | @error stop _ _ worlds =>
    cases stop with
    | fault message => exact .ok (recovered message) worlds
    | exhausted => exact .error worlds

/-- From worlds that belong together, ends that do. -/
def Alike (R : World → World → Prop) (V : α → β → Prop) (x : Run α) (y : Run β) : Prop :=
  ∀ ⦃w w' : World⦄, R w w' → EndsAlike R V (x w) (y w')

namespace Alike

/-- Related values are given alike. -/
theorem pure {a : α} {b : β} (h : V a b) : Alike R V (pure a) (pure b) :=
  fun _ _ worlds ↦ .ok h worlds

/-- Runs that stop for the same reason are alike. -/
theorem throw (stop : Stop) : Alike R V (throw stop) (throw stop) :=
  fun _ _ worlds ↦ .error worlds

/-- From one world a computation comes to one end. -/
theorem refl (x : Run α) : Alike Eq Eq x x := by
  rintro w _ rfl
  cases x w with
  | ok => exact .ok rfl rfl
  | error => exact .error rfl

/-- Runs that are alike are so with what follows, if that is alike for related values. -/
theorem bind {x : Run α} {y : Run β} {f : α → Run γ} {g : β → Run δ} (h : Alike R V x y)
    (next : ∀ a b, V a b → Alike R W (f a) (g b)) : Alike R W (x >>= f) (y >>= g) := by
  intro w w' worlds
  change EndsAlike R W (EStateM.bind x f w) (EStateM.bind y g w')
  unfold EStateM.bind
  have ends := h worlds
  generalize x w = r, y w' = r' at ends ⊢
  cases ends with
  | ok value worlds => exact next _ _ value worlds
  | error worlds => exact .error worlds

/-- Where the first steps give equal values, the rest may be compared value by value. -/
theorem bind_eq {x y : Run α} {f : α → Run γ} {g : α → Run δ} (h : Alike R Eq x y)
    (next : ∀ a, Alike R W (f a) (g a)) : Alike R W (x >>= f) (y >>= g) :=
  h.bind fun a _ eq ↦ eq ▸ next a

/-- Runs that are alike are so up to any wider relation of values. -/
theorem mono {V' : α → β → Prop} {x : Run α} {y : Run β} (h : Alike R V x y)
    (le : ∀ a b, V a b → V' a b) : Alike R V' x y := by
  intro w w' worlds
  have ends := h worlds
  generalize x w = r, y w' = r' at ends ⊢
  cases ends with
  | ok value worlds => exact .ok (le _ _ value) worlds
  | error worlds => exact .error worlds

/-- A value may be changed in the first run within the relation. -/
theorem map_left {W : γ → β → Prop} {x : Run α} {y : Run β} {f : α → γ} (h : Alike R V x y)
    (le : ∀ a b, V a b → W (f a) b) : Alike R W (x >>= fun a ↦ Pure.pure (f a)) y := by
  have put := h.bind (W := W) (f := fun a ↦ Pure.pure (f a)) (g := Pure.pure) fun a b value ↦
    pure (le a b value)
  simpa only [bind_pure] using put

/-- A value may be changed in the second run within the relation. -/
theorem map_right {W : α → δ → Prop} {x : Run α} {y : Run β} {g : β → δ} (h : Alike R V x y)
    (le : ∀ a b, V a b → W a (g b)) : Alike R W x (y >>= fun b ↦ Pure.pure (g b)) := by
  have put := h.bind (W := W) (f := Pure.pure) (g := fun b ↦ Pure.pure (g b)) fun a b value ↦
    pure (le a b value)
  simpa only [bind_pure] using put

/-- Changes that keep worlds related are alike. -/
theorem modify {f g : World → World} (h : ∀ w w', R w w' → R (f w) (g w')) :
    Alike R Eq (modify f) (modify g) :=
  fun _ _ worlds ↦ .ok rfl (h _ _ worlds)

/-- Related worlds are read alike. -/
theorem get : Alike R R get get :=
  fun _ _ worlds ↦ .ok worlds worlds

/-- A first step that cannot but give a value, on one side alone. -/
theorem bind_left {x : Run α} {f : α → Run γ} {y : Run δ} {a : α} (h : Alike R Eq x (Pure.pure a))
    (next : Alike R W (f a) y) : Alike R W (x >>= f) y := by
  intro w w' worlds
  have ends := h worlds
  change EndsAlike R W (EStateM.bind x f w) (y w')
  unfold EStateM.bind
  generalize x w = r at ends ⊢
  cases ends with
  | ok value worlds =>
    subst value
    exact next worlds

/-- A look at the world, on one side alone. -/
theorem get_left {f : World → Run γ} {y : Run δ} (h : ∀ w, Alike R W (f w) y) :
    Alike R W (MonadState.get >>= f) y :=
  fun w _ worlds ↦ h w worlds

/-- Runs that end alike do so with breakdowns contained. -/
theorem contain {x y : Run α} (h : Alike R Eq x y) (recover : String → α) :
    Alike R Eq (x.contain recover) (y.contain recover) :=
  fun _ _ worlds ↦ (h worlds).contain fun _ ↦ rfl

/-- The marks at the two ends of a resolution, where events do not matter. -/
theorem marked {x y : Run α} (depth depth' : Nat) (events : ∀ e e', Alike R Eq (emit e) (emit e'))
    (h : Alike R Eq x y) : Alike R Eq (Run.marked depth x) (Run.marked depth' y) := by
  refine get.bind fun w w' _ ↦ (events _ _).bind_eq fun _ ↦ h.bind_eq fun a ↦ ?_
  exact get.bind fun u u' _ ↦ (events _ _).bind_eq fun _ ↦ pure rfl

end Alike

/-- A computation that gives a value and leaves nothing behind but events. -/
def Quiet (x : Run α) (a : α) : Prop :=
  ∀ w, ∃ events, x w = .ok a { w with trace := w.trace ++ events }

namespace Quiet

/-- A value that is just given changes nothing. -/
theorem pure (a : α) : Quiet (pure a) a := fun w ↦ ⟨[], by simp [Pure.pure, EStateM.pure]⟩

/-- An event only lengthens the trace. -/
theorem emit (e : Event) : Quiet (emit e) () := fun _ ↦ ⟨[e], rfl⟩

/-- Two quiet runs are quiet one after the other. -/
theorem bind {x : Run α} {f : α → Run β} {a : α} {b : β} (h : Quiet x a) (next : Quiet (f a) b) :
    Quiet (x >>= f) b := by
  intro w
  obtain ⟨first, ends⟩ := h w
  obtain ⟨more, last⟩ := next { w with trace := w.trace ++ first }
  refine ⟨first ++ more, ?_⟩
  rw [bind_of_ok ends]
  simpa using last

private theorem forM {f : β → Run Unit} (xs : List β) (h : ∀ x, Quiet (f x) ()) :
    Quiet (xs.forM f) () := by
  induction xs with
  | nil => exact pure ()
  | cons x rest ih => exact (h x).bind ih

/-- Quiet computations are alike where events do not matter. -/
theorem alike {x : Run α} {y : Run β} {a : α} {b : β} (h : Quiet x a) (h' : Quiet y b)
    (value : V a b)
    (silent : ∀ w w' t t', R w w' → R { w with trace := t } { w' with trace := t' }) :
    Alike R V x y := by
  intro w w' worlds
  obtain ⟨_, ends⟩ := h w
  obtain ⟨_, ends'⟩ := h' w'
  rw [ends, ends']
  exact .ok value (silent _ _ _ _ worlds)

/-- A quiet first step may be left out where events do not matter. -/
theorem alike_left {x : Run α} {f : α → Run γ} {y : Run δ} {a : α} (h : Quiet x a)
    (silent : ∀ w w' t, R w w' → R { w with trace := t } w') (next : Alike R W (f a) y) :
    Alike R W (x >>= f) y := by
  intro w w' worlds
  obtain ⟨_, ends⟩ := h w
  rw [bind_of_ok ends]
  exact next (silent _ _ _ worlds)

/-- A quiet run may come first in the second of two runs that are alike. -/
theorem alike_right {x : Run γ} {y : Run β} {g : β → Run δ} {b : β} (h : Quiet y b)
    (silent : ∀ w w' t, R w w' → R w { w' with trace := t }) (next : Alike R W x (g b)) :
    Alike R W x (y >>= g) := by
  intro w w' worlds
  obtain ⟨_, ends⟩ := h w'
  rw [bind_of_ok ends]
  exact next (silent _ _ _ worlds)

end Quiet

namespace EndsAlike

variable {x y : Run α} {w w' : World}

/-- Runs that end alike give the same. -/
theorem result_eq (h : EndsAlike R Eq (x w) (y w')) : x.result w = y.result w' := by
  unfold result
  generalize x w = r, y w' = r' at h ⊢
  cases h with
  | ok value _ => rw [value]
  | error _ => rfl

/-- Runs that end alike end in related worlds. -/
theorem last (h : EndsAlike R Eq (x w) (y w')) : R (x.last w) (y.last w') := by
  unfold Run.last
  generalize x w = r, y w' = r' at h ⊢
  cases h with
  | ok _ worlds => exact worlds
  | error worlds => exact worlds

end EndsAlike

/-- Runs that are alike give the same from related worlds. -/
theorem Alike.result_eq {x y : Run α} (h : Alike R Eq x y) {w w' : World} (worlds : R w w') :
    x.result w = y.result w' :=
  (h worlds).result_eq

end Run

namespace Env

open Run

/-- The report of a filling only lengthens the trace. -/
theorem reportFill_quiet (env : Env) (tag : Tag) (v : Value) : Quiet (env.reportFill tag v) () := by
  unfold reportFill
  split
  · exact Quiet.emit _
  · exact Quiet.pure ()

/-- Reports only lengthen the trace. -/
theorem report_quiet (env : Env) (events : List Event) : Quiet (env.report events) () := by
  unfold report
  split
  · exact Quiet.forM events Quiet.emit
  · exact Quiet.pure ()

end Env

end TextTags
