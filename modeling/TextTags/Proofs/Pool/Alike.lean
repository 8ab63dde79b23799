import TextTags.Proofs.Pool.Jobs

/-!
# Results that reach nobody

Whether a job ends with one result or with another matters to no step but the one in which its
caller takes the result. In a run without that step all the others go on as they would have, and
every caller gets the same answer.
-/

namespace TextTags

variable {α : Type}

namespace Step

/-- The step with another result, if it ends a certain job. -/
def retold (i : Nat) (other : Except String α) : Step α → Step α
  | .finish k result => .finish k (if k = i then other else result)
  | s => s

variable {i : Nat} {s : Step α}

private theorem retold_eq (h : ∀ result, s ≠ .finish i result) (other : Except String α) :
    s.retold i other = s := by
  cases s with
  | finish k result =>
    have apart : k ≠ i := fun same ↦ h result (by rw [same])
    rw [retold, if_neg apart]
  | _ => rfl

/-- Steps in which a job does not end tell the same of it. -/
theorem map_retold_eq {steps : List (Step α)} (h : ∀ result, .finish i result ∉ steps)
    (other : Except String α) : steps.map (·.retold i other) = steps := by
  have each : ∀ s ∈ steps, s.retold i other = id s := fun s mem ↦
    retold_eq (fun result same ↦ h result (same ▸ mem)) other
  rw [List.map_congr_left each, List.map_id]

end Step

namespace Job

variable {i : Nat} {s : Step α} {j j' : Job α}

/-- Whether two jobs differ in nothing but in what they came to. -/
structure Alike (j j' : Job α) : Prop where
  limit : j'.limit = j.limit
  answer : j'.answer = j.answer
  cancelled : j'.cancelled = j.cancelled
  task : j'.task = j.task
  worker : j'.worker = j.worker ∨
    ∃ result other, j.worker = .ended result ∧ j'.worker = .ended other
  channel : j'.channel.isSome = j.channel.isSome

namespace Alike

private theorem refl (j : Job α) : j.Alike j := ⟨rfl, rfl, rfl, rfl, .inl rfl, rfl⟩

private theorem worker_eq (h : j.Alike j') (unended : ∀ result, j.worker ≠ .ended result) :
    j'.worker = j.worker := by
  rcases h.worker with same | ⟨result, -, ended, -⟩
  · exact same
  · exact absurd ended (unended result)

private theorem ended (h : j.Alike j') {result : Except String α}
    (ended : j.worker = .ended result) :
    ∃ result, j'.worker = .ended result := by
  rcases h.worker with same | ⟨-, result, -, ended'⟩
  · exact ⟨_, same.trans ended⟩
  · exact ⟨result, ended'⟩

private theorem empty (h : j.Alike j') (empty : j.channel = none) : j'.channel = none := by
  have same := h.channel
  rwa [empty, Option.isSome_none, Option.isSome_eq_false_iff, Option.isNone_iff_eq_none] at same

/-- Both jobs move alike, unless the caller takes the result. -/
theorem exists_moves (h : j.Alike j') {k : Job α} (move : Moves i s j k) (untaken : s ≠ .receive i)
    (other : Except String α) : ∃ k', Moves i (s.retold i other) j' k' ∧ k.Alike k' := by
  cases move with
  | acquire queued =>
    exact ⟨_, .acquire (h.task.trans queued), { h with task := rfl, worker := .inl rfl }⟩
  | start ready wanted =>
    have ready' := (h.worker_eq (by simp [ready])).trans ready
    exact ⟨_, .start ready' (h.cancelled.trans wanted), { h with worker := .inl rfl }⟩
  | skip ready unwanted =>
    have ready' := (h.worker_eq (by simp [ready])).trans ready
    exact ⟨_, .skip ready' (h.cancelled.trans unwanted), { h with worker := .inl rfl }⟩
  | finish running result =>
    have running' := (h.worker_eq (by simp [running])).trans running
    rw [Step.retold, if_pos rfl]
    exact ⟨_, .finish running' other, { h with worker := .inr ⟨result, other, rfl, rfl⟩ }⟩
  | send holding ended =>
    obtain ⟨result, ended'⟩ := h.ended ended
    exact ⟨_, .send (h.task.trans holding) ended', { h with task := rfl, channel := rfl }⟩
  | receive => contradiction
  | expire waits empty =>
    exact ⟨_, .expire (h.answer.trans waits) (h.empty empty),
      { h with answer := by rw [h.limit], cancelled := rfl }⟩
  | lose waits empty gone =>
    exact ⟨_, .lose (h.answer.trans waits) (h.empty empty) (h.task.trans gone),
      { h with answer := rfl }⟩
  | release done =>
    have done' : j'.canRelease = true := by
      rw [canRelease_iff, h.task, h.cancelled]
      refine (canRelease_iff.1 done).imp_right (.imp_right (.imp_left fun ⟨holding, skipped⟩ ↦ ?_))
      exact ⟨holding, (h.worker_eq (by simp [skipped])).trans skipped⟩
    exact ⟨_, .release done', { h with task := rfl }⟩

end Alike

end Job

namespace Pool

open Job

variable {p q p' : Pool α} {i : Nat} {s : Step α} {steps : List (Step α)} {j j' : Job α}

/-- Putting a member of a list where it is changes nothing. -/
theorem set_eq_self {β : Type} {l : List β} {b : β} (found : l[i]? = some b) : l.set i b = l := by
  obtain ⟨known, rfl⟩ := List.getElem?_eq_some_iff.1 found
  exact List.set_getElem_self known

/-- Whether two pools differ in nothing but in what one job came to. -/
structure AlikeBut (i : Nat) (p p' : Pool α) (j j' : Job α) : Prop where
  found : p.jobs[i]? = some j
  alike : j.Alike j'
  eq : p' = { p with jobs := p.jobs.set i j' }

/-- A pool is like itself in all jobs but one. -/
theorem AlikeBut.refl (found : p.jobs[i]? = some j) : AlikeBut i p p j j where
  found := found
  alike := .refl j
  eq := by rw [set_eq_self found]

/-- Pools that are alike take the same steps, unless the caller takes the result. -/
theorem AlikeBut.step (h : AlikeBut i p p' j j') (step : p.step? s = some q)
    (untaken : s ≠ .receive i) (other : Except String α) :
    ∃ q' k k', p'.step? (s.retold i other) = some q' ∧ AlikeBut i q q' k k' := by
  obtain ⟨found, alike, rfl⟩ := h
  have known : i < p.jobs.length := (List.getElem?_eq_some_iff.1 found).1
  rcases step?_cases step with ⟨limit, rfl, rfl⟩ | ⟨k, j₀, j₁, moved⟩
  · refine ⟨_, j, j', rfl, (List.getElem?_append_left known).trans found, alike, ?_⟩
    rw [List.set_append_left _ _ known]
  · have enough : j₁.task.slots ≤ p.free + j₀.task.slots :=
      Nat.le.intro ((Nat.add_comm _ _).trans moved.free)
    have after := moved.eq
    by_cases same : i = k
    · -- The job in question moves in both pools.
      subst same
      obtain rfl := Option.some.inj (found.symm.trans moved.found)
      obtain ⟨k', move', alike'⟩ := alike.exists_moves moved.moves untaken other
      have step' := step?_of_moves (p := { p with jobs := p.jobs.set i j' })
        (List.getElem?_set_self known) move' (by rwa [alike.task, alike'.task])
      refine ⟨_, j₁, k', step', moved.getElem?_self, alike', ?_⟩
      rw [after, alike.task, alike'.task, List.set_set, List.set_set]
    · -- The job that moves is the same in both pools.
      have about : s.job? ≠ some i := fun about ↦
        same (Option.some.inj (about.symm.trans moved.moves.job?_eq))
      have step' := step?_of_moves (p := { p with jobs := p.jobs.set i j' })
        ((List.getElem?_set_ne same).trans moved.found) moved.moves enough
      rw [Step.retold_eq fun result same ↦ about (by rw [same]; rfl)]
      refine ⟨_, j, j', step', (moved.getElem?_ne same).trans found, alike, ?_⟩
      rw [after, List.set_comm _ _ same]

/-- In a run in which the caller takes nothing, pools that are alike stay so. -/
theorem AlikeBut.run (h : AlikeBut i p p' j j') (run : p.run? steps = some q)
    (untaken : .receive i ∉ steps) (other : Except String α) :
    ∃ q' k k', p'.run? (steps.map (·.retold i other)) = some q' ∧ AlikeBut i q q' k k' := by
  induction steps generalizing p p' j j' with
  | nil =>
    obtain rfl := Option.some.inj run
    exact ⟨p', j, j', rfl, h⟩
  | cons s rest ih =>
    obtain ⟨here, later⟩ := not_or.1 (mt List.mem_cons.2 untaken)
    obtain ⟨next, first, last⟩ := run?_cons run
    obtain ⟨next', k, k', first', h'⟩ := h.step first (Ne.symm here) other
    obtain ⟨q', l, l', last', h''⟩ := ih h' last later
    refine ⟨q', l, l', ?_, h''⟩
    rw [List.map_cons, run?, first']
    exact last'

/-- Pools that are alike but for one job give all callers the same answers. -/
theorem AlikeBut.answer?_eq (h : AlikeBut i p p' j j') (k : Nat) : p'.answer? k = p.answer? k := by
  obtain ⟨found, alike, rfl⟩ := h
  by_cases same : i = k
  · subst same
    have set : (p.jobs.set i j')[i]? = some j' :=
      List.getElem?_set_self (List.getElem?_eq_some_iff.1 found).1
    change ((p.jobs.set i j')[i]?).bind (·.answer) = (p.jobs[i]?).bind (·.answer)
    rw [set, found]
    exact alike.answer
  · change ((p.jobs.set i j')[k]?).bind (·.answer) = (p.jobs[k]?).bind (·.answer)
    rw [List.getElem?_set_ne same]

end Pool

end TextTags
