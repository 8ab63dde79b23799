import TextTags.Failure

/-!
# The pool of workers

Guarded jobs share a fixed number of slots. A job waits for a slot, runs on a worker of its own, and
gives its result to a caller who waits for a limited time. Jobs, tasks, workers and callers move
independently; a run of the pool is a list of steps, each of which can be taken only in states that
allow it.
-/

namespace TextTags

/-- How the task that looks after a job stands. -/
inductive Task
  /-- Waiting for a slot. -/
  | queued
  /-- Holding a slot and waiting for the worker. -/
  | holding
  /-- Holding a slot after the result was sent. -/
  | sent
  /-- Gone, and holding nothing. -/
  | dropped
deriving DecidableEq

/-- How the worker of a job stands. -/
inductive Worker (α : Type)
  /-- There is none yet. -/
  | absent
  /-- It has not yet looked at whether the job was called off. -/
  | ready
  | running
  /-- The job was called off before it started. -/
  | skipped
  /-- The job has ended, with a value or with the message of a breakdown. -/
  | ended (result : Except String α)

/-- A job with all that belongs to it. -/
structure Job (α : Type) where
  limit : Limit
  /-- What the caller got; none while it waits. -/
  answer : Option (Except Failure α) := none
  /-- Whether the caller has called the job off. -/
  cancelled : Bool := false
  task : Task := .queued
  worker : Worker α := .absent
  /-- The result on its way to the caller. -/
  channel : Option (Except String α) := none

/-- A number of slots, and the jobs submitted so far. -/
structure Pool (α : Type) where
  capacity : Nat
  free : Nat
  jobs : List (Job α) := []

/-- One step of one of the parties. -/
inductive Step (α : Type)
  /-- A caller submits a job and begins to wait. -/
  | submit (limit : Limit)
  /-- A task takes a slot and sets a worker to the job. -/
  | acquire (job : Nat)
  /-- A worker finds the job not called off and starts it. -/
  | start (job : Nat)
  /-- A worker finds the job called off. -/
  | skip (job : Nat)
  /-- A job ends. -/
  | finish (job : Nat) (result : Except String α)
  /-- A task sends the result to the caller. -/
  | send (job : Nat)
  /-- A caller takes the result that was sent. -/
  | receive (job : Nat)
  /-- A caller's time is up: it calls the job off and goes. -/
  | expire (job : Nat)
  /-- A caller finds that nothing can come any more. -/
  | lose (job : Nat)
  /-- A task goes and gives back the slot that it holds. -/
  | release (job : Nat)

namespace Task

/-- The number of slots a task holds. -/
def slots : Task → Nat
  | queued => 0
  | holding => 1
  | sent => 1
  | dropped => 0

end Task

namespace Job

variable {α : Type}

/-- The answer that a result gives a caller. -/
def answerOf : Except String α → Except Failure α
  | .ok a => .ok a
  | .error message => .error (.workerFault message)

/-- The message where a worker has gone without a result. -/
def lostMessage : String := "worker exited without a result"

/-- Whether the caller still waits. -/
def waits (j : Job α) : Bool := j.answer.isNone

/-- Whether the job was ever started. -/
def started (j : Job α) : Bool :=
  match j.worker with
  | .running => true
  | .ended _ => true
  | _ => false

/-- A worker set to the job. -/
def acquire? (j : Job α) : Option (Job α) :=
  if j.task = .queued then some { j with task := .holding, worker := .ready } else none

/-- The job started, unless it was called off. -/
def start? (j : Job α) : Option (Job α) :=
  match j.worker with
  | .ready => if j.cancelled then none else some { j with worker := .running }
  | _ => none

/-- The job passed over after it was called off. -/
def skip? (j : Job α) : Option (Job α) :=
  match j.worker with
  | .ready => if j.cancelled then some { j with worker := .skipped } else none
  | _ => none

/-- The job ended. -/
def finish? (result : Except String α) (j : Job α) : Option (Job α) :=
  match j.worker with
  | .running => some { j with worker := .ended result }
  | _ => none

/-- The result on its way. -/
def send? (j : Job α) : Option (Job α) :=
  match j.task, j.worker with
  | .holding, .ended result => some { j with task := .sent, channel := some result }
  | _, _ => none

/-- The caller with the result that was sent. -/
def receive? (j : Job α) : Option (Job α) :=
  match j.answer, j.channel with
  | none, some result => some { j with answer := some (answerOf result), channel := none }
  | _, _ => none

/-- The caller gone after its time. What has been sent before is taken and not left. -/
def expire? (j : Job α) : Option (Job α) :=
  match j.answer, j.channel with
  | none, none => some { j with answer := some (.error (.timeout j.limit)), cancelled := true }
  | _, _ => none

/-- The caller gone because its task is gone and has sent nothing. -/
def lose? (j : Job α) : Option (Job α) :=
  match j.answer, j.channel with
  | none, none =>
    if j.task = .dropped then
      some { j with answer := some (.error (.workerFault lostMessage)) }
    else none
  | _, _ => none

/-- Whether the task has nothing left to do: it has sent the result, its worker has passed the job
over, or the job was called off. -/
def canRelease (j : Job α) : Bool :=
  match j.task, j.worker with
  | .dropped, _ => false
  | .sent, _ => true
  | .holding, .skipped => true
  | _, _ => j.cancelled

/-- The task gone. -/
def release? (j : Job α) : Option (Job α) :=
  if j.canRelease then some { j with task := .dropped } else none

end Job

namespace Pool

variable {α : Type}

/-- The number of slots where none is set. -/
def defaultWorkers : Nat := 4

/-- The greatest number of slots that can be counted. -/
def maxSlots : Nat := Nat.pow 2 61 - 1

/-- A pool of at least one slot; none where the slots cannot be counted. -/
def create? (workers : Nat) : Option (Pool α) :=
  let capacity := max workers 1
  if capacity ≤ maxSlots then some { capacity, free := capacity } else none

/-- Changes one job, where the change is possible. -/
def update? (p : Pool α) (i : Nat) (f : Job α → Option (Job α)) : Option (Pool α) := do
  let j ← p.jobs[i]?
  some { p with jobs := p.jobs.set i (← f j) }

/-- The pool after a slot is taken for a job. -/
def acquire? (p : Pool α) (i : Nat) : Option (Pool α) := do
  if p.free = 0 then none
  else return { ← p.update? i Job.acquire? with free := p.free - 1 }

/-- The pool after a task has gone. -/
def release? (p : Pool α) (i : Nat) : Option (Pool α) := do
  let j ← p.jobs[i]?
  return { ← p.update? i Job.release? with free := p.free + j.task.slots }

/-- The pool after a step, if the step can be taken. -/
def step? (p : Pool α) : Step α → Option (Pool α)
  | .submit limit => some { p with jobs := p.jobs ++ [{ limit }] }
  | .acquire i => p.acquire? i
  | .start i => p.update? i Job.start?
  | .skip i => p.update? i Job.skip?
  | .finish i result => p.update? i (Job.finish? result)
  | .send i => p.update? i Job.send?
  | .receive i => p.update? i Job.receive?
  | .expire i => p.update? i Job.expire?
  | .lose i => p.update? i Job.lose?
  | .release i => p.release? i

/-- The pool after steps one after another, if all can be taken. -/
def run? (p : Pool α) : List (Step α) → Option (Pool α)
  | [] => some p
  | s :: rest => do (← p.step? s).run? rest

/-- The answer that the caller of a job has got. -/
def answer? (p : Pool α) (i : Nat) : Option (Except Failure α) := do (← p.jobs[i]?).answer

end Pool

end TextTags
