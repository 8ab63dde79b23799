import TextTags.Pool.Basic

/-!
# Serving jobs in turn

Schedules of a pool in which one job at a time moves from its submission to the return of its slot,
and one in which two jobs meet.
-/

namespace TextTags

/-- What a job does once it is started. -/
inductive Body (α : Type)
  /-- It ends within its time. -/
  | ends (result : Except String α)
  /-- It ends once it is called off. -/
  | spins

namespace Pool

variable {α : Type}

/-- The steps of the next job that is submitted, where no other job moves. Without a free slot the
job is never started. -/
def schedule (p : Pool α) (limit : Limit) (body : Body α) : List (Step α) :=
  let i := p.jobs.length
  if p.free = 0 then [.submit limit, .expire i, .release i]
  else [.submit limit, .acquire i, .start i] ++
    match body with
    | .ends result => [.finish i result, .send i, .receive i, .release i]
    | .spins => [.expire i, .release i]

/-- The pool after a list of steps, or as it was if one of them cannot be taken. -/
def advance (p : Pool α) (steps : List (Step α)) : Pool α := (p.run? steps).getD p

/-- Serves one job: the pool afterwards, and the answer to the caller. -/
def serve (p : Pool α) (limit : Limit) (body : Body α) : Pool α × Option (Except Failure α) :=
  let p' := p.advance (p.schedule limit body)
  (p', p'.answer? p.jobs.length)

/-- What comes of two jobs that meet. -/
structure Contest (α : Type) where
  /-- The answer to the caller of the later job. -/
  later : Option (Except Failure α)
  /-- Whether the later job was ever started. -/
  started : Bool
  /-- The answer to the caller of the earlier job. -/
  earlier : Option (Except Failure α)

/-- Serves a job while another one holds a slot, and then lets that one end. -/
def contend (p : Pool α) (holdLimit : Limit) (held : α) (limit : Limit) (body : Body α) :
    Pool α × Contest α :=
  let i := p.jobs.length
  let p := p.advance [.submit holdLimit, .acquire i, .start i]
  let (p, later) := p.serve limit body
  let started := match p.jobs[i + 1]? with
    | some j => j.started
    | none => false
  let p := p.advance [.finish i (.ok held), .send i, .receive i, .release i]
  (p, { later, started, earlier := p.answer? i })

end Pool

end TextTags
