import TextTags.Proofs.Pool.Alike

/-!
# Each caller is answered once, and with what is its own

A job is started once at most, and not at all after it was called off. Its caller gets one answer,
which comes of the job's own result or of its own limit, and what the job comes to afterwards
reaches nobody.
-/

namespace TextTags

variable {α : Type}

namespace Step

/-- The limit of the job that a step submits. -/
def limit? : Step α → Option Limit
  | .submit limit => some limit
  | _ => none

/-- Whether a step starts a job. -/
def starts (i : Nat) : Step α → Bool
  | .start k => k == i
  | _ => false

/-- Whether a step ends the wait of a job's caller. -/
def answers (i : Nat) : Step α → Bool
  | .receive k => k == i
  | .expire k => k == i
  | .lose k => k == i
  | _ => false

variable {i : Nat} {s : Step α}

private theorem starts_of_ne (h : s.job? ≠ some i) : s.starts i = false := by
  cases s with
  | start k => simpa [starts, job?] using h
  | _ => rfl

private theorem answers_of_ne (h : s.job? ≠ some i) : s.answers i = false := by
  cases s with
  | receive k | expire k | lose k => simpa [answers, job?] using h
  | _ => rfl

end Step

namespace Job

variable {i : Nat} {s : Step α} {past : List (Step α)} {j j' : Job α}

private theorem started_moves (sound : j.Sound) (move : Moves i s j j') :
    j'.started.toNat = j.started.toNat + (s.starts i).toNat := by
  cases move with
  | acquire queued => simp [started, sound.queued queued, Step.starts]
  | start ready wanted => simp [started, ready, Step.starts]
  | skip ready unwanted => simp [started, ready, Step.starts]
  | finish running result => simp [started, running, Step.starts]
  | _ => rfl

private theorem answer_moves (move : Moves i s j j') :
    j'.answer.isSome.toNat = j.answer.isSome.toNat + (s.answers i).toNat := by
  cases move with
  | receive waits sent => simp [waits, Step.answers]
  | expire waits empty => simp [waits, Step.answers]
  | lose waits empty gone => simp [waits, Step.answers]
  | _ => rfl

private theorem cancelled_moves (move : Moves i s j j') :
    j'.cancelled = true ↔ j.cancelled = true ∨ s = .expire i := by
  cases move <;> simp

private theorem ended_moves (sound : j.Sound) (move : Moves i s j j') (result : Except String α) :
    j'.worker = .ended result ↔ j.worker = .ended result ∨ s = .finish i result := by
  cases move with
  | acquire queued => simp [sound.queued queued]
  | start ready wanted => simp [ready]
  | skip ready unwanted => simp [ready]
  | finish running result' => simp [running]
  | _ => simp

/-- Whether a job tells how often it was started and answered, whether it was called off, and with
which result it has ended. -/
structure Recalls (i : Nat) (past : List (Step α)) (j : Job α) : Prop where
  sound : j.Sound
  starts : past.countP (·.starts i) = j.started.toNat
  answers : past.countP (·.answers i) = j.answer.isSome.toNat
  cancelled : j.cancelled = true ↔ .expire i ∈ past
  ended : ∀ result, j.worker = .ended result ↔ .finish i result ∈ past

private theorem countP_snoc (test : Step α → Bool) (past : List (Step α)) (s : Step α) :
    (past ++ [s]).countP test = past.countP test + (test s).toNat := by
  rw [List.countP_append, List.countP_singleton]
  cases test s <;> rfl

private theorem lasting_recalls : Pool.Lasting (@Recalls α) where
  fresh {i past} limit unmoved := {
    sound := .fresh limit
    starts := List.countP_eq_zero.2 fun s mem ↦ by simp [Step.starts_of_ne (unmoved s mem)]
    answers := List.countP_eq_zero.2 fun s mem ↦ by simp [Step.answers_of_ne (unmoved s mem)]
    cancelled := ⟨nofun, fun mem ↦ absurd rfl (unmoved _ mem)⟩
    ended := fun result ↦ ⟨nofun, fun mem ↦ absurd rfl (unmoved _ mem)⟩ }
  moves {i past s j j'} h move := {
    sound := h.sound.of_moves move
    starts := by rw [countP_snoc, h.starts, started_moves h.sound move]
    answers := by rw [countP_snoc, h.answers, answer_moves move]
    cancelled := by
      rw [cancelled_moves move, h.cancelled, List.mem_append, List.mem_singleton, @eq_comm _ s]
    ended := fun result ↦ by
      rw [ended_moves h.sound move, h.ended, List.mem_append, List.mem_singleton, @eq_comm _ s] }
  other {i past s j} h apart := {
    sound := h.sound
    starts := by rw [countP_snoc, h.starts, Step.starts_of_ne apart, Bool.toNat_false, Nat.add_zero]
    answers := by
      rw [countP_snoc, h.answers, Step.answers_of_ne apart, Bool.toNat_false, Nat.add_zero]
    cancelled := by
      have ne : Step.expire i ≠ s := fun same ↦ apart (same ▸ rfl)
      rw [h.cancelled, List.mem_append, List.mem_singleton, or_iff_left ne]
    ended := fun result ↦ by
      have ne : Step.finish i result ≠ s := fun same ↦ apart (same ▸ rfl)
      rw [h.ended, List.mem_append, List.mem_singleton, or_iff_left ne] }

namespace Recalls

/-- The answer is that of the job's own result, or of its own limit. -/
theorem answer_cases (h : Recalls i past j) {a : Except Failure α} (answer : j.answer = some a) :
    (∃ v, .finish i (.ok v) ∈ past ∧ a = .ok v) ∨
      (∃ message, .finish i (.error message) ∈ past ∧ a = .error (.workerFault message)) ∨
      .expire i ∈ past ∧ a = .error (.timeout j.limit) := by
  rcases h.sound.answered a answer with off | ⟨-, result, ended, rfl⟩
  · rw [h.sound.calledOff off] at answer
    exact .inr (.inr ⟨h.cancelled.1 off, (Option.some.inj answer).symm⟩)
  · have finished := (h.ended result).1 ended
    cases result with
    | ok v => exact .inl ⟨v, finished, rfl⟩
    | error message => exact .inr (.inl ⟨message, finished, rfl⟩)

private theorem endsOnce (h : Recalls i past j) {result other : Except String α}
    (first : .finish i result ∈ past) (second : .finish i other ∈ past) : result = other :=
  Worker.ended.inj (((h.ended result).2 first).symm.trans ((h.ended other).2 second))

/-- A caller whose time was up takes nothing. -/
theorem untaken (h : Recalls i past j) (late : .expire i ∈ past) : .receive i ∉ past := by
  intro taken
  obtain ⟨before, after, rfl⟩ := List.append_of_mem taken
  have once := Nat.le_trans (Nat.le_of_eq h.answers) (Bool.toNat_le _)
  have receives : (Step.receive i : Step α).answers i = true := beq_self_eq_true i
  rw [List.countP_append, List.countP_cons, if_pos receives] at once
  have more {steps : List (Step α)} (mem : .expire i ∈ steps) : 0 < steps.countP (·.answers i) :=
    List.countP_pos_iff.2 ⟨.expire i, mem, beq_self_eq_true i⟩
  have elsewhere : .expire i ∈ before ∨ .expire i ∈ after := by simpa using late
  have := elsewhere.imp more more
  omega

end Recalls

private theorem answered_moves {a : Except Failure α} (answer : j.answer = some a)
    (move : Moves i s j j') :
    j'.answer = some a := by
  cases move with
  | receive waits sent => rw [waits] at answer; contradiction
  | expire waits empty => rw [waits] at answer; contradiction
  | lose waits empty gone => rw [waits] at answer; contradiction
  | _ => exact answer

/-- Whether a result was sent in time: the caller has it, or it is on its way. -/
structure Delivered (result : Except String α) (j : Job α) : Prop where
  sound : j.Sound
  wanted : j.cancelled = false
  answer : j.answer = some (answerOf result) ∨ j.answer = none ∧ j.channel = some result

private theorem Delivered.of_moves {result : Except String α} (h : Delivered result j)
    (move : Moves i s j j') : Delivered result j' := by
  have sound := h.sound.of_moves move
  cases move with
  | send holding ended =>
    refine ⟨sound, h.wanted, h.answer.imp_right fun ⟨waits, sent⟩ ↦ ⟨waits, ?_⟩⟩
    rw [(h.sound.channel _ sent).1] at ended
    rw [Worker.ended.inj ended]
  | receive waits sent =>
    rcases h.answer with answer | ⟨-, sent'⟩
    · rw [waits] at answer
      contradiction
    · rw [sent'] at sent
      exact ⟨sound, h.wanted, .inl (by rw [Option.some.inj sent])⟩
  | expire waits empty | lose waits empty =>
    rcases h.answer with answer | ⟨-, sent⟩
    · rw [waits] at answer
      contradiction
    · rw [empty] at sent
      contradiction
  | _ => exact ⟨sound, h.wanted, h.answer⟩

end Job

namespace Pool

open Job

variable {p q p' : Pool α} {i : Nat} {s : Step α} {past steps more : List (Step α)} {j j' : Job α}

private theorem limits_step (h : p.jobs.map (·.limit) = past.filterMap Step.limit?)
    (step : p.step? s = some q) :
    q.jobs.map (·.limit) = (past ++ [s]).filterMap Step.limit? := by
  rw [List.filterMap_append, ← h]
  rcases step?_cases step with ⟨limit, rfl, rfl⟩ | ⟨k, j, j', moved⟩
  · rw [List.map_append]
    rfl
  · have hno : s.limit? = none := by
      cases moved.moves <;> rfl
    have limit : (p.jobs.map (·.limit))[k]? = some j.limit := by
      rw [List.getElem?_map, moved.found]
      rfl
    rw [moved.jobs, List.map_set, moved.moves.limit_eq, List.filterMap_cons, hno,
      List.filterMap_nil, List.append_nil]
    exact set_eq_self limit

/-- The jobs of a run are those submitted in it, in their order and with their limits. -/
theorem run?_limits {workers : Nat} {start : Pool α} (created : create? workers = some start)
    (run : start.run? steps = some p) :
    p.jobs.map (·.limit) = steps.filterMap Step.limit? := by
  obtain ⟨-, -, hno⟩ := create?_cases created
  exact run?_keeps (fun past p ↦ p.jobs.map (·.limit) = past.filterMap Step.limit?) limits_step []
    (by rw [hno]; rfl) run

/-! ## How a caller is served -/

/-- What a run of a pool does for the caller of a job with a limit. -/
structure Serves (start : Pool α) (steps : List (Step α)) (p : Pool α) (i : Nat) (limit : Limit)
    (j : Job α) : Prop where
  startsOnce : steps.countP (·.starts i) ≤ 1
  /-- A job that was called off is not started. -/
  startsWanted : ∀ before after, steps = before ++ .start i :: after → .expire i ∉ before
  endsOnce : ∀ result other, .finish i result ∈ steps → .finish i other ∈ steps → result = other
  answersOnce : steps.countP (·.answers i) = j.answer.isSome.toNat
  /-- The answer is that of the job's own result, or of its own limit. -/
  answer : ∀ a, j.answer = some a →
    (∃ v, .finish i (.ok v) ∈ steps ∧ a = .ok v) ∨
      (∃ message, .finish i (.error message) ∈ steps ∧ a = .error (.workerFault message)) ∨
      .expire i ∈ steps ∧ a = .error (.timeout limit)
  /-- A caller that waits can be answered by the next step. -/
  progress : j.answer = none → ∃ s q, s.answers i ∧ p.step? s = some q ∧ q.answer? i ≠ none
  /-- An answer stays whatever happens. -/
  final : ∀ a, j.answer = some a → ∀ more q, p.run? more = some q → q.answer? i = some a
  /-- Where the time was up, no answer to any caller depends on what the job comes to. -/
  late : .expire i ∈ steps → ∀ other, ∃ q,
    start.run? (steps.map (·.retold i other)) = some q ∧ ∀ k, q.answer? k = p.answer? k
  /-- A result that is sent before the time is up is the answer, or the next one to be taken. -/
  delivered : ∀ before after, steps = before ++ .send i :: after → .expire i ∉ before →
    ∃ result, .finish i result ∈ before ∧ .expire i ∉ after ∧
      (j.answer = some (answerOf result) ∨
        j.answer = none ∧ ∃ q, p.step? (.receive i) = some q ∧
          q.answer? i = some (answerOf result))

variable {workers : Nat} {start : Pool α}

private theorem recalls_of_run? (created : create? workers = some start)
    (run : start.run? steps = some p) (found : p.jobs[i]? = some j) : Recalls i steps j :=
  ((Tells.created created).run lasting_recalls run).jobs i j found

private theorem answer?_of_found (found : p.jobs[i]? = some j) : p.answer? i = j.answer := by
  rw [answer?, found]
  rfl

private theorem receive_step (found : p.jobs[i]? = some j) (waits : j.answer = none)
    {result : Except String α} (sent : j.channel = some result) :
    ∃ q, p.step? (.receive i) = some q ∧ q.answer? i = some (answerOf result) := by
  obtain ⟨q, received, moved⟩ := step_possible found (.receive waits sent) (Nat.le_add_left _ _)
  exact ⟨q, received, answer?_of_found moved.getElem?_self⟩

private theorem answer_step (found : p.jobs[i]? = some j) (waits : j.answer = none) :
    ∃ s q, s.answers i ∧ p.step? s = some q ∧ q.answer? i ≠ none := by
  cases channel : j.channel with
  | some result =>
    obtain ⟨q, received, answer⟩ := receive_step found waits channel
    exact ⟨.receive i, q, beq_self_eq_true i, received, by rw [answer]; nofun⟩
  | none =>
    obtain ⟨q, expired, moved⟩ := step_possible found (.expire waits channel) (Nat.le_add_left _ _)
    exact ⟨.expire i, q, beq_self_eq_true i, expired,
      by rw [answer?_of_found moved.getElem?_self]; nofun⟩

private theorem wanted_at_start (created : create? workers = some start)
    (run : start.run? (past ++ .start i :: more) = some p) : .expire i ∉ past := by
  obtain ⟨q, q', before, started, -⟩ := run?_at.1 run
  obtain ⟨j, j', moved⟩ := step?_moved started rfl
  cases moved.moves with
  | start ready wanted =>
    intro mem
    rw [(recalls_of_run? created before moved.found).cancelled.2 mem] at wanted
    contradiction

private theorem answer?_of_run? {a : Except Failure α} (found : p.jobs[i]? = some j)
    (answer : j.answer = some a) (run : p.run? more = some q) : q.answer? i = some a := by
  obtain ⟨j', found', answer'⟩ := run?_follows answered_moves found answer run
  exact (answer?_of_found found').trans answer'

private theorem late_of_run? (recalls : Recalls i steps j) (run : start.run? steps = some p)
    (late : .expire i ∈ steps) (other : Except String α) : ∃ q,
      start.run? (steps.map (·.retold i other)) = some q ∧ ∀ k, q.answer? k = p.answer? k := by
  have untaken := recalls.untaken late
  by_cases ended : ∃ result, .finish i result ∈ steps
  · -- Up to the end of the job nothing is retold, and from there on the pools are alike.
    obtain ⟨result, mem⟩ := ended
    obtain ⟨before, after, rfl, first⟩ := List.eq_append_cons_of_mem mem
    have unended : ∀ result', .finish i result' ∉ before := fun result' mem' ↦
      first (recalls.endsOnce mem (List.mem_append_left _ mem') ▸ mem')
    obtain ⟨q₀, early, rest⟩ := run?_split run
    obtain ⟨q₁, finished, -⟩ := run?_cons rest
    obtain ⟨j₀, j₁, moved⟩ := step?_moved finished rfl
    obtain ⟨q, k, k', rest', alike⟩ := (AlikeBut.refl moved.found).run rest
      (fun mem ↦ untaken (List.mem_append_right _ mem)) other
    refine ⟨q, ?_, alike.answer?_eq⟩
    rw [List.map_append, Step.map_retold_eq unended, run?_append, early]
    exact rest'
  · rw [Step.map_retold_eq (not_exists.1 ended)]
    exact ⟨p, run, fun k ↦ rfl⟩

private theorem delivered_of_send (created : create? workers = some start)
    (run : start.run? (past ++ .send i :: more) = some p) (found : p.jobs[i]? = some j)
    (inTime : .expire i ∉ past) : ∃ result, .finish i result ∈ past ∧ Delivered result j := by
  obtain ⟨q₀, q₁, before, sent, after⟩ := run?_at.1 run
  obtain ⟨j₀, j₁, moved⟩ := step?_moved sent rfl
  have recalls := recalls_of_run? created before moved.found
  cases moved.moves with
  | @send j₀ holding result ended =>
    have wanted : j₀.cancelled = false :=
      Bool.eq_false_iff.2 fun off ↦ inTime (recalls.cancelled.1 off)
    -- The caller can have gone neither with a result, as none was sent yet, nor with its time up.
    have waits : j₀.answer = none := by
      refine Option.eq_none_iff_forall_ne_some.2 fun a answer ↦ ?_
      rcases recalls.sound.answered a answer with off | ⟨isOver, -⟩
      · rw [wanted] at off
        contradiction
      · rw [holding] at isOver
        contradiction
    have delivered : Delivered result { j₀ with task := .sent, channel := some result } :=
      ⟨recalls.sound.of_moves moved.moves, wanted, .inr ⟨waits, rfl⟩⟩
    obtain ⟨j', found', delivered'⟩ := run?_follows Delivered.of_moves moved.getElem?_self delivered
      after
    obtain rfl := Option.some.inj (found.symm.trans found')
    exact ⟨result, (recalls.ended result).1 ended, delivered'⟩

/-- In every run of a new pool, whatever the jobs and however their steps interleave, each
submission has a job of its own, which is started at most once and not after it was called off, and
whose caller gets one answer, that of its own job or of its own limit. -/
theorem run?_serves (created : create? workers = some start) (run : start.run? steps = some p)
    (i : Nat) (limit : Limit) (submitted : (steps.filterMap Step.limit?)[i]? = some limit) :
    ∃ j, p.jobs[i]? = some j ∧ Serves start steps p i limit j := by
  rw [← run?_limits created run, List.getElem?_map] at submitted
  obtain ⟨j, found, rfl⟩ := Option.map_eq_some_iff.1 submitted
  have recalls := recalls_of_run? created run found
  refine ⟨j, found, {
    startsOnce := Nat.le_trans (Nat.le_of_eq recalls.starts) (Bool.toNat_le _)
    startsWanted := ?startsWanted
    endsOnce := fun _ _ ↦ recalls.endsOnce
    answersOnce := recalls.answers
    answer := fun _ ↦ recalls.answer_cases
    progress := answer_step found
    final := fun _ answer _ _ ↦ answer?_of_run? found answer
    late := late_of_run? recalls run
    delivered := ?delivered }⟩
  case startsWanted =>
    rintro before after rfl
    exact wanted_at_start created run
  case delivered =>
    rintro before after rfl inTime
    obtain ⟨result, ended, delivered⟩ := delivered_of_send created run found inTime
    refine ⟨result, ended, fun mem ↦ ?_, delivered.answer.imp_right fun ⟨waits, sent⟩ ↦
      ⟨waits, receive_step found waits sent⟩⟩
    have off := recalls.cancelled.2 (List.mem_append_right _ (List.mem_cons_of_mem _ mem))
    rw [delivered.wanted] at off
    contradiction

/-- One slot and two callers. The earlier job gets the slot and is called off while it runs, so the
later one gets the slot and breaks down; the earlier one ends when nobody waits for it any more. -/
def overrun : List (Step String) :=
  [.submit ⟨5⟩, .submit ⟨9⟩, .acquire 0, .start 0, .expire 0, .release 0, .acquire 1, .start 1,
    .finish 0 (.ok "late"), .finish 1 (.error "broken"), .send 1, .receive 1, .release 1]

/-- A job that overruns its limit and one that waits for its slot both serve their callers. -/
theorem run?_serves_overrun : ∃ start p : Pool String,
    create? 1 = some start ∧ start.run? overrun = some p ∧
      (∃ j, p.jobs[0]? = some j ∧ Serves start overrun p 0 ⟨5⟩ j) ∧
      (∃ j, p.jobs[1]? = some j ∧ Serves start overrun p 1 ⟨9⟩ j) ∧
      p.answer? 0 = some (.error (.timeout ⟨5⟩)) ∧
      p.answer? 1 = some (.error (.workerFault "broken")) := by
  have created : create? 1 = some (⟨1, 1, []⟩ : Pool String) := rfl
  exact ⟨_, _, created, rfl, run?_serves created rfl 0 ⟨5⟩ rfl,
    run?_serves created rfl 1 ⟨9⟩ rfl, rfl, rfl⟩

end Pool

end TextTags
