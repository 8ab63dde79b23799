import TextTags.Fill.World

/-!
# How runs end

A run ends in a world, with a value or in a breakdown. After a value the next run begins where the
first ended; after a breakdown there is no next run.
-/

namespace TextTags.Run

variable {α β : Type} {x : Run α} {f : α → Run β} {w w' : World}

/-- What a run comes to, its world left out. -/
def result (x : Run α) (w : World) : Except Stop α :=
  match x w with
  | .ok a _ => .ok a
  | .error stop _ => .error stop

/-- The world in which a run ends. -/
def last (x : Run α) (w : World) : World :=
  match x w with
  | .ok _ w' => w'
  | .error _ w' => w'

/-- The events that a run adds to the trace. -/
def adds (x : Run α) (w : World) : List Event := (x.last w).trace.drop w.trace.length

/-- A run that ends gives its value. -/
theorem result_of_ok {a : α} (h : x w = .ok a w') : x.result w = .ok a := by
  rw [result, h]

/-- A run that stops gives what it stops for. -/
theorem result_of_error {stop : Stop} (h : x w = .error stop w') : x.result w = .error stop := by
  rw [result, h]

/-- A run that gives a value ends in some world. -/
theorem eq_ok_of_result {a : α} (h : x.result w = .ok a) : ∃ w', x w = .ok a w' := by
  unfold result at h
  split at h
  · next a' w' ends => exact ⟨w', by rw [ends, Except.ok.inj h]⟩
  · contradiction

/-- A run whose value is known by what is made of it. -/
theorem eq_ok_of_map_result {g : α → β} {b : β} (h : (x.result w).toOption.map g = some b) :
    ∃ a w', x w = .ok a w' ∧ g a = b := by
  unfold result at h
  split at h
  · next a w' ends => exact ⟨a, w', ends, Option.some.inj h⟩
  · contradiction

/-- A run that ends has its last world. -/
theorem last_of_ok {a : α} (h : x w = .ok a w') : x.last w = w' := by
  rw [last, h]

/-- A run that stops has its last world. -/
theorem last_of_error {stop : Stop} (h : x w = .error stop w') : x.last w = w' := by
  rw [last, h]

/-- After a run that ends comes what follows, with its value and in its world. -/
theorem bind_of_ok {a : α} (h : x w = .ok a w') : (x >>= f) w = f a w' := by
  change EStateM.bind x f w = _
  rw [EStateM.bind, h]

/-- After a run that stops comes nothing. -/
theorem bind_of_error {stop : Stop} (h : x w = .error stop w') :
    (x >>= f) w = .error stop w' := by
  change EStateM.bind x f w = _
  rw [EStateM.bind, h]

/-- A run that gives a value after another gave its own before. -/
theorem eq_ok_of_bind {b : β} (h : (x >>= f) w = .ok b w') :
    ∃ a u, x w = .ok a u ∧ f a u = .ok b w' := by
  cases ends : x w with
  | ok a u => exact ⟨a, u, rfl, (bind_of_ok ends).symm.trans h⟩
  | error stop u => exact absurd ((bind_of_error ends).symm.trans h) nofun

/-- What follows a run that ends tells what is given. -/
theorem result_bind_of_ok {a : α} (h : x w = .ok a w') : (x >>= f).result w = (f a).result w' := by
  rw [result, bind_of_ok h, ← result]

/-- What a run stops for is what is given in the end. -/
theorem result_bind_of_error {stop : Stop} (h : x w = .error stop w') :
    (x >>= f).result w = .error stop :=
  result_of_error (bind_of_error h)

/-- What a run comes to when a value is made of a breakdown. -/
def recovered (recover : String → α) : Except Stop α → Except Stop α
  | .error (.fault message) => .ok (recover message)
  | result => result

/-- A contained run gives what its result is recovered to. -/
theorem result_contain (x : Run α) (recover : String → α) (w : World) :
    (x.contain recover).result w = recovered recover (x.result w) := by
  unfold result contain
  cases x w with
  | ok => rfl
  | error stop => cases stop <;> rfl

/-- A value after recovery was there before or comes of a breakdown. -/
theorem eq_ok_of_recovered {recover : String → α} {r : Except Stop α} {a : α}
    (h : recovered recover r = .ok a) : r = .ok a ∨ ∃ message, a = recover message := by
  cases r with
  | ok => exact .inl h
  | error stop =>
    cases stop with
    | fault message => exact .inr ⟨message, (Except.ok.inj h).symm⟩
    | exhausted => contradiction

/-- A run that ends does so contained as well. -/
theorem contain_of_ok {recover : String → α} {a : α} (h : x w = .ok a w') :
    x.contain recover w = .ok a w' := by
  rw [contain, h]

/-- A run with its breakdowns contained can only run out of levels. -/
theorem contain_ne_fault {recover : String → α} {stop : Stop}
    (h : x.contain recover w = .error stop w') : stop = .exhausted := by
  unfold contain at h
  split at h
  · contradiction
  · next other =>
    cases stop with
    | exhausted => rfl
    | fault message => exact absurd h (other message w')

/-- Whether all values that a run can give have a property. -/
def Gives (good : α → Prop) (x : Run α) : Prop := ∀ w a w', x w = .ok a w' → good a

namespace Gives

variable {good : α → Prop} {good' : β → Prop}

/-- Every run gives something of no condition. -/
theorem any : x.Gives fun _ ↦ True := fun _ _ _ _ ↦ trivial

/-- A value that is given meets its condition. -/
theorem pure {a : α} (h : good a) : Gives good (Pure.pure a) := fun _ _ _ eq ↦ by
  cases eq
  exact h

/-- A run that stops gives nothing that a condition could fail for. -/
theorem throw (stop : Stop) : Gives good (throw stop) := fun _ _ _ eq ↦ nomatch eq

/-- What a run gives meets a condition if what follows ensures it of every good value. -/
theorem bind (h : x.Gives good) (next : ∀ a, good a → (f a).Gives good') :
    (x >>= f).Gives good' := by
  intro w b w' eq
  cases ends : x w with
  | ok a u =>
    rw [bind_of_ok ends] at eq
    exact next a (h w a u ends) u b w' eq
  | error stop u =>
    rw [bind_of_error ends] at eq
    contradiction

/-- A contained run gives a good value if what it recovers with is good. -/
theorem contain {recover : String → α} (h : x.Gives good) (recovered : ∀ m, good (recover m)) :
    (x.contain recover).Gives good := by
  intro w a w' eq
  unfold Run.contain at eq
  cases ends : x w with
  | ok b u =>
    rw [ends] at eq
    cases eq
    exact h w a w' ends
  | error stop u =>
    rw [ends] at eq
    cases stop with
    | fault message =>
      cases eq
      exact recovered message
    | exhausted => contradiction

end Gives

end TextTags.Run
