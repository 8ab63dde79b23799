import TextTags.Proofs.Fill.Course

/-!
# Outcomes are well-formed

Both the handlers and the resolution itself count segments as fulfilled and note names. Neither
takes a segment back or counts one that the chain does not have, and no name is noted twice. So the
count goes up to that of the outcome, and an outcome tells of its chain what is so.
-/

namespace TextTags

/-- Counts that never go down, from one count up to another. -/
structure Rises (low : Nat) (counts : List Nat) (high : Nat) : Prop where
  le : low ≤ high
  within : ∀ n ∈ counts, low ≤ n ∧ n ≤ high
  sorted : counts.Pairwise (· ≤ ·)

namespace Rises

variable {a b c : Nat} {counts more : List Nat}

private theorem nil (le : a ≤ b) : Rises a [] b := ⟨le, by simp, .nil⟩

private theorem append (h : Rises a counts b) (h' : Rises b more c) :
    Rises a (counts ++ more) c where
  le := Nat.le_trans h.le h'.le
  within n mem := by
    rcases List.mem_append.1 mem with mem | mem
    · exact ⟨(h.within n mem).1, Nat.le_trans (h.within n mem).2 h'.le⟩
    · exact ⟨Nat.le_trans h.le (h'.within n mem).1, (h'.within n mem).2⟩
  sorted := List.pairwise_append.2 ⟨h.sorted, h'.sorted, fun n mem m mem' ↦
    Nat.le_trans (h.within n mem).2 (h'.within m mem').1⟩

private theorem cons {n : Nat} (le : a ≤ n) (h : Rises n counts b) : Rises a (n :: counts) b :=
  append ⟨le, by simp [le], List.pairwise_singleton _ _⟩ h

end Rises

namespace Frame

variable {α : Type} {f : Frame} {p : Progress} {w : World}

/-- The counts that a handler goes through, one after each query. -/
def runCounts (f : Frame) : Handler α → Progress → World → List Nat
  | .done _, _, _ => []
  | .fault _, _, _ => []
  | .ask query next, p, w =>
    match f.answer p query w with
    | .ok (a, p) w => p.fulfilled :: f.runCounts (next a) p w
    | .error _ _ => []

/-- The counts that a call goes through, the one before it included. -/
def callCounts (f : Frame) (c : Call) : List Nat :=
  c.progress.fulfilled ::
    f.runCounts c.handler c.progress ((Run.emit (.called c.callee)).last c.world)

/-- The counts that resolving the chain goes through, that of the outcome last. -/
def counts (f : Frame) (w : World) : List Nat :=
  (f.calls w).flatMap f.callCounts ++
    match f.runChain w with
    | .ok outcome _ => [outcome.count]
    | .error _ _ => []

/-- How counts belong to a run that ends in a progress: they go up to it, or somewhere in the chain
where the run breaks off. -/
def CountsTo (f : Frame) (p : Progress) (counts : List Nat) :
    EStateM.Result Stop World (α × Progress) → Prop
  | .ok (_, p') _ => p'.Valid f.chain ∧ Rises p.fulfilled counts p'.fulfilled
  | .error _ _ => Rises p.fulfilled counts f.chain.length

private theorem eq_of_answered {α : Type} {x : Run α} {a : α} {p' : Progress} {w' : World}
    (h : (do return (← x, p)) w = .ok (a, p') w') : p' = p := by
  cases ends : x w with
  | ok b u =>
    rw [Run.bind_of_ok ends] at h
    cases h
    rfl
  | error stop u =>
    rw [Run.bind_of_error ends] at h
    contradiction

/-- No query takes a segment back. -/
theorem answer_valid (valid : p.Valid f.chain) {q : Query} {a : q.Answer} {p' : Progress}
    {w' : World} (h : f.answer p q w = .ok (a, p') w') :
    p'.Valid f.chain ∧ p.fulfilled ≤ p'.fulfilled := by
  cases q with
  | fulfill count =>
    cases counting_eq_ok h
    exact ⟨valid.fulfill count, valid.le_fulfill count⟩
  | seem name =>
    cases h
    exact ⟨valid.seem name, Nat.le_refl _⟩
  | lackParam =>
    cases h
    exact ⟨⟨valid.fulfilled, valid.seeming⟩, Nat.le_refl _⟩
  | cursor | host | context | depth | cancelled | elapse | note =>
    cases h
    exact ⟨valid, Nat.le_refl _⟩
  | param | fill | awaitCancel =>
    cases eq_of_answered h
    exact ⟨valid, Nat.le_refl _⟩

private theorem run_countsTo (h : Handler α) (valid : p.Valid f.chain) (w : World) :
    f.CountsTo p (f.runCounts h p w) (f.run h p w) := by
  induction h generalizing p w with
  | done a => exact ⟨valid, .nil (Nat.le_refl _)⟩
  | fault message => exact .nil valid.fulfilled
  | ask query next ih =>
    rw [runCounts, run]
    cases ends : f.answer p query w with
    | error stop u =>
      rw [Run.bind_of_error ends]
      exact .nil valid.fulfilled
    | ok answered u =>
      obtain ⟨a, p'⟩ := answered
      obtain ⟨valid', le⟩ := answer_valid valid ends
      rw [Run.bind_of_ok ends]
      have rest := ih a valid' u
      dsimp only
      revert rest
      cases f.run (next a) p' u with
      | ok result v => exact fun rest ↦ ⟨rest.1, rest.2.cons le⟩
      | error stop v => exact fun rest ↦ rest.cons le

private theorem callEnd_countsTo (c : Call) (valid : c.progress.Valid f.chain) :
    f.CountsTo c.progress (f.callCounts c) (f.callEnd c) := by
  have run := run_countsTo c.handler valid ((Run.emit (.called c.callee)).last c.world)
  have emitted : Run.emit (.called c.callee) c.world =
      .ok () ((Run.emit (.called c.callee)).last c.world) := rfl
  rw [callEnd, call, callCounts, Run.bind_of_ok emitted]
  revert run
  cases ends : f.run c.handler c.progress _ with
  | ok result u =>
    rw [Run.bind_of_ok ends]
    exact fun run ↦ ⟨run.1, run.2.cons (Nat.le_refl _)⟩
  | error stop u =>
    rw [Run.bind_of_error ends]
    exact fun run ↦ run.cons (Nat.le_refl _)

end Frame

namespace Plan

variable {α : Type} {good : Nat → α → Prop} {n : Nat}

/-- What a plan that counts up comes to, with the counts on the way. -/
theorem Climbs.exec {f : Frame} {x : Plan α} (h : x.Climbs .loose f.chain good n)
    (le : n ≤ f.chain.length) (w : World) :
    match x.exec f w with
    | .ok a _ => ∃ m, good m a ∧ Rises n ((x.calls f w).flatMap f.callCounts) m
    | .error _ _ => Rises n ((x.calls f w).flatMap f.callCounts) f.chain.length := by
  -- On the calls of the plan; `n` is the count that the next one begins with.
  induction x generalizing n w with
  | ends a => exact ⟨n, h, .nil (Nat.le_refl _)⟩
  | look next ih => exact ih _ (h _) le w
  | call callee handler p next ih =>
    obtain ⟨before, valid, -, rest⟩ := h
    have made := Frame.callEnd_countsTo ⟨callee, handler, p, w⟩ valid
    rw [Plan.exec, calls, List.flatMap_cons]
    revert made
    rw [Frame.callEnd]
    cases ends : f.call callee handler p w with
    | error stop u =>
      rw [Run.bind_of_error ends]
      intro made
      exact (Rises.nil before).append (made.append (.nil (Nat.le_refl _)))
    | ok result u =>
      rw [Run.bind_of_ok ends]
      rintro ⟨valid', made⟩
      have following := rest result.1 result.2 (fun _ _ ↦ trivial) valid' made.le
      have later := ih result following valid'.fulfilled u
      have made := (Rises.nil before).append made
      dsimp only
      revert later
      cases (next result).exec f u with
      | ok a v =>
        rintro ⟨m, good, later⟩
        exact ⟨m, good, made.append later⟩
      | error stop v => exact fun later ↦ made.append later

end Plan

/-- The counts of a resolution go up to that of its outcome, which ends the course of its chain. -/
theorem Frame.counts_rise (f : Frame) (w : World) :
    Rises 0 (f.counts w) f.chain.length ∧
      ∀ outcome w', f.runChain w = .ok outcome w' → Plan.Ended .loose f.chain 0 outcome := by
  have kept := Terms.loose_kept f.env.registry
  have made := (Plan.climbs_ofChain kept f.chain).exec (Nat.zero_le _) w
  rw [Plan.exec_ofChain] at made
  unfold counts calls
  revert made
  cases f.runChain w with
  | error stop u =>
    intro made
    exact ⟨made.append (.nil (Nat.le_refl _)), nofun⟩
  | ok outcome u =>
    rintro ⟨m, ended, made⟩
    have last : Rises m [outcome.count] f.chain.length :=
      .cons ended.count (.nil ended.formed.count_le)
    refine ⟨made.append last, fun _ _ eq ↦ ?_⟩
    cases eq
    exact ended.of_le (Nat.zero_le m)

namespace Env

open Run

variable {env : Env} {fill : Scope → String → Run Value} {chain : Chain}

end Env

end TextTags
