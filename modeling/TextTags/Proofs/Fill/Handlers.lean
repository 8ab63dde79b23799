import TextTags.Fill.Resolve

/-!
# Handlers one after another

What follows a handler runs from the progress that the handler leaves, an attempt only after a
value. The numbers of the segments of a chain never overflow, nor do any that begin at its root.
-/

namespace TextTags

open Handler

variable {α β : Type}

private theorem Cursor.lt_length_of_param {c : Cursor} {offset : Nat} {raw : String}
    (h : c.param? offset = some raw) : c.fulfilled + offset < c.chain.length := by
  obtain ⟨s, present, -⟩ := Option.bind_eq_some_iff.1 h
  exact (List.getElem?_eq_some_iff.1 present).1

namespace Progress

/-- Places within the chain have numbers. -/
theorem canCount_of_le {p : Progress} {ahead total : Nat} (h : p.fulfilled + ahead ≤ total) :
    p.canCount ahead total := by
  unfold canCount countLimit
  exact decide_eq_true (by omega)

/-- The present place has a number. -/
theorem canCount_zero (p : Progress) (total : Nat) : p.canCount 0 total :=
  decide_eq_true (Nat.zero_le _)

/-- From the root on, all places below the limit of 64 bits have numbers. -/
theorem canCount_root {ahead : Nat} (h : ahead < Nat.pow 2 64) (total : Nat) :
    ({} : Progress).canCount ahead total :=
  decide_eq_true (Nat.le_trans (Nat.le_sub_one_of_lt h) (Nat.le_max_right total _))

end Progress

namespace Frame

/-- A place that has a number is gone on with. -/
theorem counting_of_canCount {f : Frame} {p : Progress} {ahead : Nat}
    (h : p.canCount ahead f.chain.length) (run : Run α) : f.counting p ahead run = run :=
  if_pos h

/-- A place that has no number is a breakdown. -/
theorem counting_of_not_canCount {f : Frame} {p : Progress} {ahead : Nat}
    (h : ¬ p.canCount ahead f.chain.length) (run : Run α) :
    f.counting p ahead run = throw (.fault overflowFault) :=
  if_neg h

/-- A place with a parameter is within the chain. -/
theorem counting_of_param {f : Frame} {p : Progress} {offset : Nat} {raw : String}
    (h : (f.cursor p).param? offset = some raw) (run : Run α) : f.counting p offset run = run :=
  counting_of_canCount (Progress.canCount_of_le (Nat.le_of_lt (Cursor.lt_length_of_param h))) run

/-- A run that has counted and come to an end is the run that it was to go on with. -/
theorem counting_eq_ok {f : Frame} {p : Progress} {ahead : Nat} {run : Run α} {w w' : World} {a : α}
    (h : f.counting p ahead run w = .ok a w') : run w = .ok a w' := by
  unfold counting at h
  split at h
  · exact h
  · contradiction

private theorem run_bind (f : Frame) (h : Handler α) (g : α → Handler β) (p : Progress) :
    f.run (h.bind g) p = f.run h p >>= fun x ↦ f.run (g x.1) x.2 := by
  induction h generalizing p with
  | done a => rfl
  | fault message => rfl
  | ask query next ih =>
    simp only [Handler.bind, Frame.run, bind_assoc]
    congr 1
    funext x
    exact ih x.1 x.2

/-- An attempt goes on with its value, and not at all without one. -/
theorem run_attempt (f : Frame) (x : Attempt α) (g : α → Attempt β) (p : Progress) :
    f.run (Bind.bind (m := Attempt) x g) p = f.run x p >>= fun r ↦
      match r.1 with
      | some a => f.run (g a) r.2
      | none => pure (none, r.2) := by
  change f.run (Handler.bind x _) p = _
  rw [run_bind]
  refine congrArg (f.run x p >>= ·) (funext fun r ↦ ?_)
  cases r.1 <;> rfl

/-- An attempt at a parameter leaves the progress as it is. -/
theorem run_attemptParam (f : Frame) (i : Nat) (p : Progress) :
    f.run (Attempt.param i) p = f.param p i >>= fun v ↦ pure (v, p) := by
  change (f.param p i >>= fun v ↦ pure (v, p)) >>= (fun x ↦ pure (x.1, x.2)) = _
  simp only [bind_assoc, pure_bind]

/-- Segments that can be counted are counted. -/
theorem run_fulfill {f : Frame} {p : Progress} {count : Nat}
    (can : p.canCount count f.chain.length) (v : Value) :
    f.run (do fulfill count; return v : Attempt Value) p =
      pure (some v, p.fulfill count f.chain.length) := by
  change f.counting p count (pure ((), p.fulfill count f.chain.length)) >>=
    (fun x ↦ pure (some v, x.2)) = _
  rw [counting_of_canCount can]
  rfl

/-- A parameter as text leaves the progress as it is. -/
theorem run_paramText (f : Frame) (i : Nat) (p : Progress) :
    f.run (Attempt.paramText i) p = f.param p i >>= fun v ↦ pure (v.map Value.asElement, p) := by
  unfold Attempt.paramText
  rw [run_attempt, run_attemptParam, bind_assoc]
  refine congrArg (f.param p i >>= ·) (funext fun v ↦ ?_)
  cases v <;> rfl

end Frame

end TextTags
