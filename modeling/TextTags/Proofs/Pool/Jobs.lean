import TextTags.Proofs.Pool.Moves

/-!
# What stands in a job fits together

A worker is only there once a slot was taken, a result is only on its way once the job has ended,
and a caller has gone either with that result or because its time was up. So no caller ever finds
that nothing can come any more.
-/

namespace TextTags

variable {α : Type}

/-- Whether a worker has a job before it or in hand. -/
def Worker.isActive : Worker α → Bool
  | .ready => true
  | .running => true
  | _ => false

namespace Job

/-- Whether the parts of a job fit together. -/
structure Sound (j : Job α) : Prop where
  queued : j.task = .queued → j.worker = .absent
  active : j.worker.isActive → j.cancelled = false → j.task = .holding
  skipped : j.worker = .skipped → j.cancelled = true
  channel : ∀ result, j.channel = some result → j.worker = .ended result ∧ j.task.isOver
  underway : j.task.isOver → j.answer = none → j.channel ≠ none
  calledOff : j.cancelled = true → j.answer = some (.error (.timeout j.limit))
  answered : ∀ a, j.answer = some a → j.cancelled = true ∨
    j.task.isOver ∧ ∃ result, j.worker = .ended result ∧ a = answerOf result

namespace Sound

variable {i : Nat} {s : Step α} {j j' : Job α}

/-- The parts of a new job fit together. -/
theorem fresh (limit : Limit) : Sound ({ limit } : Job α) where
  queued _ := rfl
  active := nofun
  skipped := nofun
  channel := nofun
  underway := nofun
  calledOff := nofun
  answered := nofun

/-- No caller waits for a job that is called off. -/
theorem not_waiting (h : j.Sound) (off : j.cancelled = true) : j.answer ≠ none := by
  rw [h.calledOff off]
  nofun

private theorem not_queued (h : j.Sound) (there : j.worker ≠ .absent) : j.task ≠ .queued :=
  mt h.queued there

/-- As long as a worker has not ended, nothing is on its way, and the caller has gone only if it has
called the job off. -/
theorem silent (h : j.Sound) (unended : ∀ result, j.worker ≠ .ended result) :
    (∀ result, j.channel ≠ some result) ∧ ∀ a, j.answer = some a → j.cancelled = true := by
  constructor
  · intro result sent
    exact unended result (h.channel result sent).1
  · intro a answer
    rcases h.answered a answer with off | ⟨-, result, ended, -⟩
    · exact off
    · exact absurd ended (unended result)

/-- A caller that still waits has something on its way as soon as its task is gone. -/
theorem not_lost (h : j.Sound) (waits : j.answer = none) (empty : j.channel = none) :
    j.task ≠ .dropped := by
  intro gone
  exact h.underway (by rw [gone]; rfl) waits empty

/-- A task that has nothing to do any more has sent the result or was called off. -/
theorem settled (h : j.Sound) (done : j.canRelease = true) :
    j.task = .sent ∨ j.cancelled = true := by
  rcases (canRelease_iff.1 done).2 with sent | ⟨-, skipped⟩ | off
  · exact .inl sent
  · exact .inr (h.skipped skipped)
  · exact .inr off

/-- A job stays sound in every move. -/
theorem of_moves (h : j.Sound) (move : Moves i s j j') : j'.Sound := by
  cases move with
  | acquire queued =>
    have absent := h.queued queued
    obtain ⟨hno, off⟩ := h.silent (by simp [absent])
    exact { h with
      queued := nofun
      active := fun _ _ ↦ rfl
      skipped := nofun
      channel := fun result sent ↦ absurd sent (hno result)
      underway := nofun
      answered := fun a answer ↦ .inl (off a answer) }
  | start ready wanted =>
    obtain ⟨hno, off⟩ := h.silent (by simp [ready])
    exact { h with
      queued := fun queued ↦ absurd queued (h.not_queued (by simp [ready]))
      active := fun _ ↦ h.active (by rw [ready]; rfl)
      skipped := nofun
      channel := fun result sent ↦ absurd sent (hno result)
      answered := fun a answer ↦ .inl (off a answer) }
  | skip ready unwanted =>
    obtain ⟨hno, off⟩ := h.silent (by simp [ready])
    exact { h with
      queued := fun queued ↦ absurd queued (h.not_queued (by simp [ready]))
      active := nofun
      skipped := fun _ ↦ unwanted
      channel := fun result sent ↦ absurd sent (hno result)
      answered := fun a answer ↦ .inl (off a answer) }
  | finish running result =>
    obtain ⟨hno, off⟩ := h.silent (by simp [running])
    exact { h with
      queued := fun queued ↦ absurd queued (h.not_queued (by simp [running]))
      active := nofun
      skipped := nofun
      channel := fun result sent ↦ absurd sent (hno result)
      answered := fun a answer ↦ .inl (off a answer) }
  | send holding ended =>
    exact { h with
      queued := nofun
      active := fun active ↦ by
        rw [ended] at active
        contradiction
      channel := fun result sent ↦ ⟨by rw [ended, Option.some.inj sent], rfl⟩
      underway := fun _ _ ↦ nofun
      answered := fun a answer ↦ (h.answered a answer).imp_right fun ⟨isOver, _⟩ ↦ by
        rw [holding] at isOver
        contradiction }
  | receive waits sent =>
    obtain ⟨ended, isOver⟩ := h.channel _ sent
    exact { h with
      channel := nofun
      underway := fun _ ↦ nofun
      calledOff := fun off ↦ absurd waits (h.not_waiting off)
      answered := fun a answer ↦ .inr ⟨isOver, _, ended, (Option.some.inj answer).symm⟩ }
  | expire waits empty =>
    exact { h with
      active := fun _ ↦ nofun
      skipped := fun _ ↦ rfl
      underway := fun _ ↦ nofun
      calledOff := fun _ ↦ rfl
      answered := fun _ _ ↦ .inl rfl }
  | lose waits empty gone =>
    -- This never happens: a task goes only after it has sent the result or was called off.
    exact absurd gone (h.not_lost waits empty)
  | release done =>
    exact { h with
      queued := nofun
      active := fun active wanted ↦ by
        rcases h.settled done with sent | off
        · rw [h.active active wanted] at sent
          contradiction
        · rw [wanted] at off
          contradiction
      channel := fun result sent ↦ ⟨(h.channel result sent).1, rfl⟩
      underway := fun _ waits ↦ by
        rcases h.settled done with sent | off
        · exact h.underway (by rw [sent]; rfl) waits
        · exact absurd waits (h.not_waiting off)
      answered := fun a answer ↦ (h.answered a answer).imp_right fun ⟨_, ended⟩ ↦ ⟨rfl, ended⟩ }

end Sound

end Job

namespace Pool

open Job

private theorem lasting_sound : Lasting fun _ _ (j : Job α) ↦ j.Sound where
  fresh limit _ := .fresh limit
  moves sound move := sound.of_moves move
  other sound _ := sound

/-- In every run of a new pool the parts of each job fit together. -/
theorem sound_of_run? {workers : Nat} {start p : Pool α} {steps : List (Step α)}
    (created : create? workers = some start) (run : start.run? steps = some p) {i : Nat}
    {j : Job α} (found : p.jobs[i]? = some j) : j.Sound :=
  ((Tells.created created).run lasting_sound run).jobs i j found

end Pool

end TextTags
