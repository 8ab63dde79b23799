import TextTags.Pool.Basic

/-!
# What a step of a pool does

A step submits a job or moves one job and leaves the others as they are. Whichever it is, the slots
that are free and the slot that the job holds stay the same together. All that holds of jobs in a
run follows from what holds of one move.
-/

namespace TextTags

variable {α : Type}

namespace Task

/-- Whether a task has nothing to send any more. -/
def isOver : Task → Bool
  | queued => false
  | holding => false
  | sent => true
  | dropped => true

/-- A task takes one slot or none. -/
theorem slots_le_one (t : Task) : t.slots ≤ 1 := by
  cases t <;> decide

end Task

/-- The number of the job that a step moves. -/
def Step.job? : Step α → Option Nat
  | .submit _ => none
  | .acquire i => some i
  | .start i => some i
  | .skip i => some i
  | .finish i _ => some i
  | .send i => some i
  | .receive i => some i
  | .expire i => some i
  | .lose i => some i
  | .release i => some i

namespace Job

/-- What a step makes of the job with a number, and when it can be taken. -/
inductive Moves (i : Nat) : Step α → Job α → Job α → Prop
  | acquire {j : Job α} (queued : j.task = .queued) :
    Moves i (.acquire i) j { j with task := .holding, worker := .ready }
  | start {j : Job α} (ready : j.worker = .ready) (wanted : j.cancelled = false) :
    Moves i (.start i) j { j with worker := .running }
  | skip {j : Job α} (ready : j.worker = .ready) (unwanted : j.cancelled = true) :
    Moves i (.skip i) j { j with worker := .skipped }
  | finish {j : Job α} (running : j.worker = .running) (result : Except String α) :
    Moves i (.finish i result) j { j with worker := .ended result }
  | send {j : Job α} (holding : j.task = .holding) {result : Except String α}
    (ended : j.worker = .ended result) :
    Moves i (.send i) j { j with task := .sent, channel := some result }
  | receive {j : Job α} (waits : j.answer = none) {result : Except String α}
    (sent : j.channel = some result) :
    Moves i (.receive i) j { j with answer := some (answerOf result), channel := none }
  | expire {j : Job α} (waits : j.answer = none) (empty : j.channel = none) :
    Moves i (.expire i) j
      { j with answer := some (.error (.timeout j.limit)), cancelled := true }
  | lose {j : Job α} (waits : j.answer = none) (empty : j.channel = none)
    (gone : j.task = .dropped) :
    Moves i (.lose i) j { j with answer := some (.error (.workerFault lostMessage)) }
  | release {j : Job α} (done : j.canRelease = true) :
    Moves i (.release i) j { j with task := .dropped }

/-- When a task can give its slot back. -/
theorem canRelease_iff {j : Job α} : j.canRelease = true ↔ j.task ≠ .dropped ∧
    (j.task = .sent ∨ j.task = .holding ∧ j.worker = .skipped ∨ j.cancelled = true) := by
  unfold canRelease
  split <;> simp_all

variable {i : Nat} {s : Step α} {j j' : Job α}

/-- A move of a job is a step about it. -/
theorem Moves.job?_eq (h : Moves i s j j') : s.job? = some i := by
  cases h <;> rfl

/-- The limit of a job stays. -/
theorem Moves.limit_eq (h : Moves i s j j') : j'.limit = j.limit := by
  cases h <;> rfl

/-- Only what takes a slot or gives one back changes what the task holds. -/
theorem Moves.slots_eq (h : Moves i s j j') (takes : s ≠ .acquire i) (gives : s ≠ .release i) :
    j'.task.slots = j.task.slots := by
  cases h with
  | acquire => contradiction
  | release => contradiction
  | send holding ended => rw [holding]; rfl
  | _ => rfl

private theorem acquire?_moves (h : j.acquire? = some j') : Moves i (.acquire i) j j' := by
  obtain ⟨queued, same⟩ := Option.ite_none_right_eq_some.1 h
  exact Option.some.inj same ▸ .acquire queued

private theorem start?_moves (h : j.start? = some j') : Moves i (.start i) j j' := by
  unfold start? at h
  split at h
  · next ready =>
    obtain ⟨wanted, same⟩ := Option.ite_none_left_eq_some.1 h
    exact Option.some.inj same ▸ .start ready (Bool.eq_false_iff.2 wanted)
  · contradiction

private theorem skip?_moves (h : j.skip? = some j') : Moves i (.skip i) j j' := by
  unfold skip? at h
  split at h
  · next ready =>
    obtain ⟨unwanted, same⟩ := Option.ite_none_right_eq_some.1 h
    exact Option.some.inj same ▸ .skip ready unwanted
  · contradiction

private theorem finish?_moves {result : Except String α} (h : j.finish? result = some j') :
    Moves i (.finish i result) j j' := by
  unfold finish? at h
  split at h
  · next running => exact Option.some.inj h ▸ .finish running result
  · contradiction

private theorem send?_moves (h : j.send? = some j') : Moves i (.send i) j j' := by
  unfold send? at h
  split at h
  · next holding ended => exact Option.some.inj h ▸ .send holding ended
  · contradiction

private theorem receive?_moves (h : j.receive? = some j') : Moves i (.receive i) j j' := by
  unfold receive? at h
  split at h
  · next waits sent => exact Option.some.inj h ▸ .receive waits sent
  · contradiction

private theorem expire?_moves (h : j.expire? = some j') : Moves i (.expire i) j j' := by
  unfold expire? at h
  split at h
  · next waits empty => exact Option.some.inj h ▸ .expire waits empty
  · contradiction

private theorem lose?_moves (h : j.lose? = some j') : Moves i (.lose i) j j' := by
  unfold lose? at h
  split at h
  · next waits empty =>
    obtain ⟨gone, same⟩ := Option.ite_none_right_eq_some.1 h
    exact Option.some.inj same ▸ .lose waits empty gone
  · contradiction

private theorem release?_moves (h : j.release? = some j') : Moves i (.release i) j j' := by
  obtain ⟨done, same⟩ := Option.ite_none_right_eq_some.1 h
  exact Option.some.inj same ▸ .release done

end Job

namespace Pool

open Job

variable {p p' : Pool α} {i : Nat} {s : Step α} {j j' : Job α}

/-- Whether a step moves a job of a pool, with what becomes of the slots. -/
structure Moved (s : Step α) (i : Nat) (j j' : Job α) (p p' : Pool α) : Prop where
  found : p.jobs[i]? = some j
  moves : Moves i s j j'
  jobs : p'.jobs = p.jobs.set i j'
  capacity : p'.capacity = p.capacity
  free : p'.free + j'.task.slots = p.free + j.task.slots

private theorem update?_cases {f : Job α → Option (Job α)} (h : p.update? i f = some p') :
    ∃ j j', p.jobs[i]? = some j ∧ f j = some j' ∧ p' = { p with jobs := p.jobs.set i j' } := by
  obtain ⟨j, found, h⟩ := Option.bind_eq_some_iff.1 h
  obtain ⟨j', changed, h⟩ := Option.bind_eq_some_iff.1 h
  exact ⟨j, j', found, changed, (Option.some.inj h).symm⟩

private theorem update?_eq {f : Job α → Option (Job α)} (found : p.jobs[i]? = some j)
    (changed : f j = some j') : p.update? i f = some { p with jobs := p.jobs.set i j' } := by
  simp [update?, found, changed]

/-- A step that leaves the slots as they are. -/
theorem moved_of_update? {f : Job α → Option (Job α)} (h : p.update? i f = some p')
    (moves : ∀ {j j'}, f j = some j' → Moves i s j j')
    (takes : s ≠ .acquire i := by simp) (gives : s ≠ .release i := by simp) :
    ∃ i j j', Moved s i j j' p p' := by
  obtain ⟨j, j', found, changed, rfl⟩ := update?_cases h
  have move := moves changed
  exact ⟨i, j, j', found, move, rfl, rfl, by rw [move.slots_eq takes gives]⟩

private theorem moved_of_acquire? (h : p.acquire? i = some p') :
    ∃ k j j', Moved (.acquire i) k j j' p p' := by
  obtain ⟨taken, h⟩ := Option.ite_none_left_eq_some.1 h
  obtain ⟨q, updated, h⟩ := Option.bind_eq_some_iff.1 h
  obtain ⟨j, j', found, changed, rfl⟩ := update?_cases updated
  obtain rfl := Option.some.inj h
  have move : Moves i (.acquire i) j j' := acquire?_moves changed
  refine ⟨i, j, j', found, move, rfl, rfl, ?_⟩
  cases move with
  | acquire queued =>
    simp only [queued, Task.slots]
    omega

private theorem moved_of_release? (h : p.release? i = some p') :
    ∃ k j j', Moved (.release i) k j j' p p' := by
  obtain ⟨j, found, h⟩ := Option.bind_eq_some_iff.1 h
  obtain ⟨q, updated, h⟩ := Option.bind_eq_some_iff.1 h
  obtain ⟨j₁, j', found', changed, rfl⟩ := update?_cases updated
  obtain rfl := Option.some.inj (found.symm.trans found')
  obtain rfl := Option.some.inj h
  have move : Moves i (.release i) j j' := release?_moves changed
  refine ⟨i, j, j', found, move, rfl, rfl, ?_⟩
  cases move with
  | release => rfl

/-- All that a step can do: it submits a job, or it moves one. -/
theorem step?_cases (h : p.step? s = some p') :
    (∃ limit, s = .submit limit ∧ p' = { p with jobs := p.jobs ++ [{ limit }] }) ∨
      ∃ i j j', Moved s i j j' p p' := by
  cases s with
  | submit limit => exact .inl ⟨limit, rfl, (Option.some.inj h).symm⟩
  | acquire i => exact .inr (moved_of_acquire? h)
  | start i => exact .inr (moved_of_update? h start?_moves)
  | skip i => exact .inr (moved_of_update? h skip?_moves)
  | finish i result => exact .inr (moved_of_update? h finish?_moves)
  | send i => exact .inr (moved_of_update? h send?_moves)
  | receive i => exact .inr (moved_of_update? h receive?_moves)
  | expire i => exact .inr (moved_of_update? h expire?_moves)
  | lose i => exact .inr (moved_of_update? h lose?_moves)
  | release i => exact .inr (moved_of_release? h)

/-- A step about a job moves that job. -/
theorem step?_moved (h : p.step? s = some p') (about : s.job? = some i) :
    ∃ j j', Moved s i j j' p p' := by
  rcases step?_cases h with ⟨limit, rfl, -⟩ | ⟨k, j, j', moved⟩
  · contradiction
  · obtain rfl := Option.some.inj (about.symm.trans moved.moves.job?_eq)
    exact ⟨j, j', moved⟩

private theorem update?_of_slots {f : Job α → Option (Job α)} (found : p.jobs[i]? = some j)
    (changed : f j = some j') (slots : j'.task.slots = j.task.slots) : p.update? i f =
      some ⟨p.capacity, p.free + j.task.slots - j'.task.slots, p.jobs.set i j'⟩ := by
  rw [update?_eq found changed, slots, Nat.add_sub_cancel]

/-- A job can move where there are slots enough for it. -/
theorem step?_of_moves (found : p.jobs[i]? = some j) (moves : Moves i s j j')
    (enough : j'.task.slots ≤ p.free + j.task.slots) :
    p.step? s =
      some ⟨p.capacity, p.free + j.task.slots - j'.task.slots, p.jobs.set i j'⟩ := by
  cases moves with
  | acquire queued =>
    have free : p.free ≠ 0 := by
      simp only [queued, Task.slots] at enough
      omega
    have updated := update?_eq (f := Job.acquire?) found (if_pos queued)
    change p.acquire? i = _
    rw [acquire?, if_neg free, updated, queued]
    rfl
  | start ready wanted => exact update?_of_slots found (by simp [start?, ready, wanted]) rfl
  | skip ready unwanted => exact update?_of_slots found (by simp [skip?, ready, unwanted]) rfl
  | finish running result => exact update?_of_slots found (by simp [finish?, running]) rfl
  | send holding ended =>
    exact update?_of_slots found (by simp [send?, holding, ended]) (by rw [holding]; rfl)
  | receive waits sent => exact update?_of_slots found (by simp [receive?, waits, sent]) rfl
  | expire waits empty => exact update?_of_slots found (by simp [expire?, waits, empty]) rfl
  | lose waits empty gone => exact update?_of_slots found (by simp [lose?, waits, empty, gone]) rfl
  | release done =>
    have updated := update?_eq (f := Job.release?) found (if_pos done)
    change p.release? i = _
    rw [release?, found, updated]
    rfl

/-- Where a job can be moved and there are slots enough, the step can be taken. -/
theorem step_possible (found : p.jobs[i]? = some j) (moves : Moves i s j j')
    (enough : j'.task.slots ≤ p.free + j.task.slots) :
    ∃ p', p.step? s = some p' ∧ Moved s i j j' p p' :=
  ⟨_, step?_of_moves found moves enough, found, moves, rfl, rfl, Nat.sub_add_cancel enough⟩

/-! ## Runs -/

variable {steps more : List (Step α)}

/-- Steps in two parts are run one part after the other. -/
theorem run?_append (p : Pool α) (steps more : List (Step α)) :
    p.run? (steps ++ more) = (p.run? steps).bind fun q ↦ q.run? more := by
  induction steps generalizing p with
  | nil => rfl
  | cons s rest ih =>
    change (p.step? s).bind _ = ((p.step? s).bind _).bind _
    rw [Option.bind_assoc]
    exact congrArg _ (funext ih)

/-- A run of two parts has a pool between them. -/
theorem run?_split (h : p.run? (steps ++ more) = some p') :
    ∃ q, p.run? steps = some q ∧ q.run? more = some p' :=
  Option.bind_eq_some_iff.1 ((run?_append p steps more).symm.trans h)

/-- A run begins with its first step. -/
theorem run?_cons (h : p.run? (s :: more) = some p') :
    ∃ q, p.step? s = some q ∧ q.run? more = some p' :=
  Option.bind_eq_some_iff.1 h

/-- A run has a pool before and one after each of its steps. -/
theorem run?_at : p.run? (steps ++ s :: more) = some p' ↔
    ∃ q q', p.run? steps = some q ∧ q.step? s = some q' ∧ q'.run? more = some p' := by
  simp [run?_append, run?, Option.bind_eq_some_iff]

/-- What each step keeps of a pool and the steps so far, a run keeps. -/
theorem run?_keeps (inv : List (Step α) → Pool α → Prop)
    (step : ∀ {past p s p'}, inv past p → p.step? s = some p' → inv (past ++ [s]) p')
    (past : List (Step α)) (start : inv past p) (run : p.run? steps = some p') :
    inv (past ++ steps) p' := by
  induction steps generalizing past p with
  | nil =>
    obtain rfl := Option.some.inj run
    rwa [List.append_nil]
  | cons s rest ih =>
    obtain ⟨q, first, last⟩ := run?_cons run
    have all := ih _ (step start first) last
    rwa [List.append_assoc] at all

/-- What a pool becomes when one job moves. -/
theorem Moved.eq (h : Moved s i j j' p p') :
    p' = ⟨p.capacity, p.free + j.task.slots - j'.task.slots, p.jobs.set i j'⟩ := by
  rw [← h.jobs, ← h.capacity, ← h.free, Nat.add_sub_cancel]

/-- The job that moves is in the pool afterwards. -/
theorem Moved.getElem?_self (h : Moved s i j j' p p') : p'.jobs[i]? = some j' := by
  rw [h.jobs, List.getElem?_set_self (List.getElem?_eq_some_iff.1 h.found).1]

/-- The other jobs stay as they are. -/
theorem Moved.getElem?_ne (h : Moved s i j j' p p') {k : Nat} (other : k ≠ i) :
    p'.jobs[k]? = p.jobs[k]? := by
  rw [h.jobs, List.getElem?_set_ne other.symm]

private theorem Moved.length_eq (h : Moved s i j j' p p') : p'.jobs.length = p.jobs.length := by
  rw [h.jobs, List.length_set]

/-- What the moves of one job keep holds of it after a run. -/
theorem run?_follows {good : Job α → Prop}
    (moves : ∀ {s j j'}, good j → Moves i s j j' → good j') (found : p.jobs[i]? = some j)
    (start : good j) (run : p.run? steps = some p') : ∃ j', p'.jobs[i]? = some j' ∧ good j' := by
  refine run?_keeps (fun _ p ↦ ∃ j, p.jobs[i]? = some j ∧ good j) ?_ [] ⟨j, found, start⟩ run
  rintro _ p s p' ⟨j, found, holds⟩ step
  rcases step?_cases step with ⟨limit, -, rfl⟩ | ⟨k, j₀, j₁, moved⟩
  · refine ⟨j, ?_, holds⟩
    rw [List.getElem?_append_left (List.getElem?_eq_some_iff.1 found).1, found]
  · by_cases same : i = k
    · subst same
      obtain rfl := Option.some.inj (found.symm.trans moved.found)
      exact ⟨j₁, moved.getElem?_self, moves holds moved.moves⟩
    · exact ⟨j, (moved.getElem?_ne same).trans found, holds⟩

/-- Whether a property of a job and the steps so far holds of each fresh job that no step has moved,
and is kept by the moves of the job and by all other steps. -/
structure Lasting (inv : Nat → List (Step α) → Job α → Prop) : Prop where
  fresh : ∀ {i past} limit, (∀ s ∈ past, s.job? ≠ some i) → inv i past { limit }
  moves : ∀ {i past s j j'}, inv i past j → Moves i s j j' → inv i (past ++ [s]) j'
  other : ∀ {i past s j}, inv i past j → s.job? ≠ some i → inv i (past ++ [s]) j

/-- Whether a property holds of all jobs of a pool, and the steps so far have moved no others. -/
structure Tells (inv : Nat → List (Step α) → Job α → Prop) (past : List (Step α)) (p : Pool α) :
    Prop where
  known : ∀ s ∈ past, ∀ i, s.job? = some i → i < p.jobs.length
  jobs : ∀ i j, p.jobs[i]? = some j → inv i past j

variable {inv : Nat → List (Step α) → Job α → Prop} {past : List (Step α)}

private theorem Tells.step (h : Tells inv past p) (lasting : Lasting inv)
    (step : p.step? s = some p') :
    Tells inv (past ++ [s]) p' := by
  -- A job that is submitted is a new one, of which no step before tells. Any other step moves one
  -- job and is about that one alone.
  rcases step?_cases step with ⟨limit, rfl, rfl⟩ | ⟨k, j₀, j₁, moved⟩
  · constructor
    · intro s mem i about
      rw [List.length_append]
      rcases List.mem_append.1 mem with old | new
      · exact Nat.lt_add_right _ (h.known s old i about)
      · rw [List.mem_singleton.1 new] at about
        contradiction
    · intro i j found
      by_cases old : i < p.jobs.length
      · rw [List.getElem?_append_left old] at found
        exact lasting.other (h.jobs i j found) nofun
      · rw [List.getElem?_append_right (Nat.le_of_not_lt old)] at found
        obtain rfl := List.mem_singleton.1 (List.mem_of_getElem? found)
        refine lasting.fresh limit fun s mem about ↦ ?_
        rcases List.mem_append.1 mem with before | new
        · exact old (h.known s before i about)
        · rw [List.mem_singleton.1 new] at about
          contradiction
  · constructor
    · intro s' mem i about
      rw [moved.length_eq]
      rcases List.mem_append.1 mem with old | new
      · exact h.known s' old i about
      · rw [List.mem_singleton.1 new, moved.moves.job?_eq] at about
        rw [← Option.some.inj about]
        exact (List.getElem?_eq_some_iff.1 moved.found).1
    · intro i j found
      by_cases same : i = k
      · subst same
        rw [moved.getElem?_self] at found
        rw [← Option.some.inj found]
        exact lasting.moves (h.jobs i j₀ moved.found) moved.moves
      · rw [moved.getElem?_ne same] at found
        refine lasting.other (h.jobs i j found) fun about ↦ same ?_
        exact Option.some.inj (about.symm.trans moved.moves.job?_eq)

/-- What lasts holds of all jobs after a run. -/
theorem Tells.run (h : Tells inv past p) (lasting : Lasting inv) (run : p.run? steps = some p') :
    Tells inv (past ++ steps) p' :=
  run?_keeps (Tells inv) (fun tells step ↦ tells.step lasting step) past h run

/-- A new pool has at least one slot, all of them free, and no jobs. -/
theorem create?_cases {workers : Nat} (h : create? workers = some p) :
    p.capacity = max workers 1 ∧ p.free = p.capacity ∧ p.jobs = [] := by
  obtain ⟨-, same⟩ := Option.ite_none_right_eq_some.1 h
  obtain rfl := Option.some.inj same
  exact ⟨rfl, rfl, rfl⟩

/-- Of a new pool there is nothing to tell. -/
theorem Tells.created {workers : Nat} (h : create? workers = some p) : Tells inv [] p := by
  obtain ⟨-, -, hno⟩ := create?_cases h
  constructor
  · exact nofun
  · intro i j found
    rw [hno] at found
    contradiction

end Pool

end TextTags
