import Mathlib.Algebra.GroupWithZero.Nat
import TextTags.Proofs.Pool.Jobs

/-!
# Slots are conserved

In every run of a pool the free slots and those that tasks hold are as many as the pool has. A job
takes one slot at most, and gives back what it has taken exactly once, however it comes to its end;
a job that never ends keeps no slot once its caller has gone.
-/

namespace TextTags

variable {α : Type}

/-- Whether a job has been started and has not ended. -/
def Job.isRunning (j : Job α) : Bool :=
  match j.worker with
  | .running => true
  | _ => false

/-- The number of slots that a task is still to take. -/
def Task.due : Task → Nat
  | .queued => 1
  | _ => 0

namespace Pool

/-- What the steps of one job count in a run, each from the pool before and the pool after it. -/
def tally (count : Pool α → Pool α → Nat) (i : Nat) (p : Pool α) : List (Step α) → Nat
  | [] => 0
  | s :: rest =>
    match p.step? s with
    | none => 0
    | some q => (if s.job? = some i then count p q else 0) + q.tally count i rest

/-- The slots that the steps of a job take from the free ones in a run. -/
def taken : Nat → Pool α → List (Step α) → Nat := tally fun p q ↦ p.free - q.free

/-- The slots that the steps of a job give back in a run. -/
def returned : Nat → Pool α → List (Step α) → Nat := tally fun p q ↦ q.free - p.free

/-- The slots that the task of a job holds; none where there is no such job. -/
def held (p : Pool α) (i : Nat) : Nat := ((p.jobs[i]?).map (·.task.slots)).getD 0

/-- The slots that the task of a job is still to take, be it submitted or not. -/
def due (p : Pool α) (i : Nat) : Nat := ((p.jobs[i]?).map (·.task.due)).getD 1

end Pool

section

variable {β : Type} {l : List β} {i : Nat} {b : β}

private theorem sum_map_set (f : β → Nat) (found : l[i]? = some b) (b' : β) :
    ((l.set i b').map f).sum + f b = (l.map f).sum + f b' := by
  induction l generalizing i with
  | nil => contradiction
  | cons first rest ih =>
    cases i with
    | zero =>
      obtain rfl := Option.some.inj found
      simp only [List.set_cons_zero, List.map_cons, List.sum_cons]
      omega
    | succ i =>
      have others := ih found
      simp only [List.set_cons_succ, List.map_cons, List.sum_cons]
      omega

private theorem countP_le_sum_map {test : β → Bool} {f : β → Nat}
    (one : ∀ b ∈ l, test b → 1 ≤ f b) :
    l.countP test ≤ (l.map f).sum := by
  induction l with
  | nil => exact Nat.le_refl 0
  | cons first rest ih =>
    have others := ih fun b mem ↦ one b (List.mem_cons_of_mem _ mem)
    have here := one first List.mem_cons_self
    rw [List.countP_cons, List.map_cons, List.sum_cons]
    split
    · next passes =>
      have := here passes
      omega
    · omega

end

namespace Pool

open Job

variable {p p' : Pool α} {i : Nat} {s : Step α} {j j' : Job α} {steps : List (Step α)}

private theorem held_of_found (found : p.jobs[i]? = some j) : p.held i = j.task.slots := by
  rw [held, found]
  rfl

private theorem due_of_found (found : p.jobs[i]? = some j) : p.due i = j.task.due := by
  rw [due, found]
  rfl

private theorem held_submit (p : Pool α) (limit : Limit) (i : Nat) :
    held { p with jobs := p.jobs ++ [{ limit }] } i = p.held i ∧
      due { p with jobs := p.jobs ++ [{ limit }] } i = p.due i := by
  unfold held due
  rcases Nat.lt_trichotomy i p.jobs.length with old | new | beyond
  · rw [List.getElem?_append_left old]
    exact ⟨rfl, rfl⟩
  · subst new
    rw [List.getElem?_concat_length, List.getElem?_eq_none (Nat.le_refl _)]
    exact ⟨rfl, rfl⟩
  · rw [List.getElem?_eq_none (by simpa using Nat.succ_le_of_lt beyond),
      List.getElem?_eq_none (Nat.le_of_lt beyond)]
    exact ⟨rfl, rfl⟩

/-- A slot that a task takes was due, and is not due any more. -/
theorem due_le (move : Moves i s j j') :
    j'.task.slots - j.task.slots + j'.task.due ≤ j.task.due := by
  cases move with
  | acquire queued =>
    rw [queued]
    exact Nat.le_refl 1
  | send holding ended =>
    rw [holding]
    exact Nat.le_refl 0
  | release done => simp [Task.slots, Task.due]
  | _ => simp

/-- What the step of a job takes from the free slots or gives back to them, its task holds more or
less. -/
theorem step?_balance (step : p.step? s = some p') (i : Nat) :
    (if s.job? = some i then p.free - p'.free else 0) + p.held i =
        (if s.job? = some i then p'.free - p.free else 0) + p'.held i ∧
      (if s.job? = some i then p.free - p'.free else 0) + p'.due i ≤ p.due i := by
  rcases step?_cases step with ⟨limit, rfl, rfl⟩ | ⟨k, j, j', moved⟩
  · obtain ⟨held, due⟩ := held_submit p limit i
    simp [Step.job?, held, due]
  · by_cases same : i = k
    · subst same
      rw [if_pos moved.moves.job?_eq, if_pos moved.moves.job?_eq, held_of_found moved.found,
        due_of_found moved.found, held_of_found moved.getElem?_self,
        due_of_found moved.getElem?_self]
      have slots := moved.free
      have due := due_le moved.moves
      have one := j'.task.slots_le_one
      omega
    · have other : s.job? ≠ some i := fun about ↦
        same (Option.some.inj (about.symm.trans moved.moves.job?_eq))
      rw [if_neg other, if_neg other]
      simp [held, due, moved.getElem?_ne same]

/-- The slots of a pool, free and held, are as many after a step as before. -/
theorem step?_slots (step : p.step? s = some p') : p'.capacity = p.capacity ∧
    p'.free + (p'.jobs.map (·.task.slots)).sum = p.free + (p.jobs.map (·.task.slots)).sum := by
  rcases step?_cases step with ⟨limit, -, rfl⟩ | ⟨i, j, j', moved⟩
  · simp [Task.slots]
  · have sum := sum_map_set (·.task.slots) moved.found j'
    have free := moved.free
    rw [moved.jobs]
    exact ⟨moved.capacity, by omega⟩

/-- What a job takes in a run it gives back or holds in the end, and no more than is due. -/
theorem run?_balance (run : p.run? steps = some p') (i : Nat) :
    p.taken i steps + p.held i = p.returned i steps + p'.held i ∧
      p.taken i steps + p'.due i ≤ p.due i := by
  induction steps generalizing p with
  | nil =>
    obtain rfl := Option.some.inj run
    exact ⟨rfl, Nat.le_of_eq (Nat.zero_add _)⟩
  | cons s rest ih =>
    obtain ⟨q, first, last⟩ := run?_cons run
    have here := step?_balance first i
    have later := ih last
    simp only [taken, returned, tally, first] at later ⊢
    omega

private theorem run?_slots (run : p.run? steps = some p') : p'.capacity = p.capacity ∧
    p'.free + (p'.jobs.map (·.task.slots)).sum = p.free + (p.jobs.map (·.task.slots)).sum := by
  refine run?_keeps (fun _ q ↦ q.capacity = p.capacity ∧
    q.free + (q.jobs.map (·.task.slots)).sum = p.free + (p.jobs.map (·.task.slots)).sum)
    (fun {_ _ _ _} h step ↦ ?_) [] ⟨rfl, rfl⟩ run
  obtain ⟨capacity, slots⟩ := step?_slots step
  exact ⟨capacity.trans h.1, slots.trans h.2⟩

private theorem slots_of_running (sound : j.Sound) (running : (j.waits && j.isRunning) = true) :
    j.task.slots = 1 := by
  obtain ⟨waits, running⟩ := Bool.and_eq_true_iff.1 running
  have wanted : j.cancelled = false := Bool.eq_false_iff.2 fun off ↦
    sound.not_waiting off (Option.isNone_iff_eq_none.1 waits)
  have active : j.worker.isActive := by
    unfold isRunning at running
    split at running
    · next eq => rw [eq]; rfl
    · contradiction
  rw [sound.active active wanted]
  rfl

/-- A task that is not gone can go, unless its caller waits and nothing is on its way. -/
theorem canRelease_or_waits (sound : j.Sound) (live : j.task ≠ .dropped) :
    j.canRelease = true ∨ j.answer = none ∧ j.channel = none := by
  by_cases isOver : j.task.isOver
  · have sent : j.task = .sent := by
      cases eq : j.task with
      | sent => rfl
      | dropped => exact absurd eq live
      | queued | holding => simp [eq, Task.isOver] at isOver
    exact .inl (canRelease_iff.2 ⟨live, .inl sent⟩)
  · cases answer : j.answer with
    | none =>
      cases channel : j.channel with
      | none => exact .inr ⟨rfl, rfl⟩
      | some result => exact absurd (sound.channel result channel).2 isOver
    | some a =>
      rcases sound.answered a answer with off | ⟨done, -⟩
      · exact .inl (canRelease_iff.2 ⟨live, .inr (.inr off)⟩)
      · exact absurd done isOver

private theorem release_step (found : p.jobs[i]? = some j) (done : j.canRelease = true) :
    ∃ q, p.step? (.release i) = some q ∧ q.free = p.free + j.task.slots ∧ q.held i = 0 := by
  obtain ⟨q, released, moved⟩ := step_possible found (.release done) (Nat.zero_le _)
  exact ⟨q, released, moved.free, held_of_found moved.getElem?_self⟩

/-- A task that is not gone can give back its slot, at once or when its caller's time is up,
whatever its worker does. -/
theorem release_possible (sound : j.Sound) (found : p.jobs[i]? = some j)
    (live : j.task ≠ .dropped) :
    ∃ q, (p.run? [.release i] = some q ∨ p.run? [.expire i, .release i] = some q) ∧
      q.free = p.free + j.task.slots ∧ q.held i = 0 := by
  rcases canRelease_or_waits sound live with done | ⟨waits, empty⟩
  · obtain ⟨q, released, gives⟩ := release_step found done
    exact ⟨q, .inl (by simp [run?, released]), gives⟩
  · obtain ⟨late, expired, moved⟩ := step_possible found (.expire waits empty) (Nat.le_add_left _ _)
    have same : late.free = p.free := Nat.add_right_cancel moved.free
    have done : ({ j with answer := some (.error (.timeout j.limit)), cancelled := true } :
        Job α).canRelease = true := canRelease_iff.2 ⟨live, .inr (.inr rfl)⟩
    obtain ⟨q, released, free, hno⟩ := release_step moved.getElem?_self done
    exact ⟨q, .inr (by simp [run?, expired, released]), by rw [free, same], hno⟩

/-- In every run of a new pool, the free slots and those that tasks hold are as many as the pool
has, and no more jobs than that run at once whose callers still wait. What a job has taken, one slot
at most, it has given back or holds; every task that is not gone can give its slot back without its
worker coming to an end, and when no task is left all slots are free. -/
theorem run?_conserves {workers : Nat} {start : Pool α} (created : create? workers = some start)
    (run : start.run? steps = some p) :
    p.capacity = max workers 1 ∧
    p.free + (p.jobs.map (·.task.slots)).sum = p.capacity ∧
    p.jobs.countP (fun j ↦ j.waits && j.isRunning) ≤ p.capacity ∧
    (∀ i, start.taken i steps ≤ 1 ∧ start.returned i steps + p.held i = start.taken i steps) ∧
    (∀ i j, p.jobs[i]? = some j → j.task ≠ .dropped →
      ∃ q, (p.run? [.release i] = some q ∨ p.run? [.expire i, .release i] = some q) ∧
        q.free = p.free + j.task.slots ∧ q.held i = 0) ∧
    ((∀ j ∈ p.jobs, j.task = .dropped) → p.free = p.capacity) := by
  obtain ⟨size, free, hno⟩ := create?_cases created
  obtain ⟨capacity, slots⟩ := run?_slots run
  have all : p.free + (p.jobs.map (·.task.slots)).sum = p.capacity := by
    rw [slots, capacity, hno, free]
    rfl
  refine ⟨capacity.trans size, all, ?_, fun i ↦ ?_, fun i j found live ↦ ?_, fun gone ↦ ?_⟩
  · have running : p.jobs.countP (fun j ↦ j.waits && j.isRunning) ≤
        (p.jobs.map (·.task.slots)).sum := by
      refine countP_le_sum_map fun j mem running ↦ ?_
      obtain ⟨i, found⟩ := List.getElem?_of_mem mem
      exact Nat.le_of_eq (slots_of_running (sound_of_run? created run found) running).symm
    omega
  · obtain ⟨balance, due⟩ := run?_balance run i
    have fresh : start.held i = 0 ∧ start.due i = 1 := by
      simp [held, Pool.due, hno]
    omega
  · exact release_possible (sound_of_run? created run found) found live
  · have zero : p.jobs.map (·.task.slots) = p.jobs.map fun _ ↦ 0 :=
      List.map_congr_left fun j there ↦ by rw [gone j there]; rfl
    rw [zero, List.map_const', List.sum_replicate_nat] at all
    omega

/-- Two jobs that never end, one after the other in a pool of one slot. -/
def neverEnding : List (Step String) :=
  [.submit ⟨5⟩, .submit ⟨9⟩, .acquire 0, .start 0, .expire 0, .release 0, .acquire 1, .start 1,
    .expire 1, .release 1]

/-- A job that still runs after its caller and its task have gone. -/
def runaway (limit : Limit) : Job String :=
  { limit, answer := some (.error (.timeout limit)), cancelled := true, task := .dropped,
    worker := .running }

/-- Two jobs that never end, and the one slot that both give back. -/
theorem run?_conserves_neverEnding : ∃ start p : Pool String,
    create? 0 = some start ∧ start.run? neverEnding = some p ∧ p.jobs = [runaway ⟨5⟩, runaway ⟨9⟩] ∧
      p.capacity = 1 ∧ (∀ i, start.taken i neverEnding ≤ 1) ∧ p.free = p.capacity := by
  have created : create? 0 = some (⟨1, 1, []⟩ : Pool String) := rfl
  have run : Pool.run? ⟨1, 1, []⟩ neverEnding = some ⟨1, 1, [runaway ⟨5⟩, runaway ⟨9⟩]⟩ := rfl
  obtain ⟨size, -, -, taken, -, all⟩ := run?_conserves created run
  exact ⟨_, _, created, run, rfl, size, fun i ↦ (taken i).1, all (by simp [runaway])⟩

end Pool

end TextTags
