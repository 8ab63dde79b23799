import TextTags.Proofs.Fill.Calls
import TextTags.Proofs.Fill.Faultless

/-!
# Where breakdowns come from

A handler breaks down by itself, at a place whose number is too large or, where the time limit
cannot be represented, in a text that it has filled. Where no text that is filled breaks down, the
resolution of a chain does just where one of the chain's own handlers does.
-/

namespace TextTags

namespace Frame

variable {α : Type} {f : Frame} {p : Progress} {w u : World} {message : String}

/-- Whether a query is for a place whose number is too large. Once time has run out, none is
made. -/
def overflows (f : Frame) (p : Progress) (w : World) : Query → Bool
  | .fulfill count => !p.canCount count f.chain.length
  | .param offset => (f.scope.passed? w.clock).isNone && !p.canCount offset f.chain.length
  | _ => false

/-- The message with which a handler itself breaks down, if it does. -/
def breakdown? (f : Frame) : Handler α → Progress → World → Option String
  | .done _, _, _ => none
  | .fault message, _, _ => some message
  | .ask query next, p, w =>
    match f.answer p query w with
    | .ok (answer, p) w => f.breakdown? (next answer) p w
    | .error _ _ => if f.overflows p w query then some overflowFault else none

/-- Whether one of the chain's own handlers breaks down with a message. -/
def BreaksDown (f : Frame) (w : World) (message : String) : Prop :=
  ∃ c ∈ f.calls w,
    f.breakdown? c.handler c.progress ((Run.emit (.called c.callee)).last c.world) = some message

private theorem counting_eq_error {ahead : Nat} {run : Run α} {stop : Stop}
    (faultless : run.Faultless) (ends : f.counting p ahead run w = .error stop u) :
    stop = if p.canCount ahead f.chain.length then .exhausted else .fault overflowFault := by
  unfold counting at ends
  split at ends
  · next can =>
    rw [if_pos can]
    exact faultless w stop u ends
  · next large =>
    rw [if_neg large]
    exact (EStateM.Result.error.inj ends).1.symm

section

variable (fills : ∀ text, (f.fill text).Faultless)

include fills

private theorem param_eq_error {offset : Nat} {stop : Stop}
    (ends : f.param p offset w = .error stop u) :
    stop = if f.overflows p w (.param offset) then .fault overflowFault else .exhausted := by
  have time : f.passed? w = .ok (f.scope.passed? w.clock) w := rfl
  rw [param, Run.bind_of_ok time] at ends
  rw [overflows]
  cases early : f.scope.passed? w.clock with
  | some limit =>
    rw [early] at ends
    contradiction
  | none =>
    rw [early] at ends
    refine (counting_eq_error ?_ ends).trans ?_
    · split
      · exact .pure _
      · exact (fills _).bind fun _ ↦ .pure _
    · cases p.canCount offset f.chain.length <;> rfl

/-- A query breaks down at a number that is too large, and else but in a text that it has filled. -/
theorem answer_eq_error {q : Query} {stop : Stop} (ends : f.answer p q w = .error stop u) :
    stop = if f.overflows p w q then .fault overflowFault else .exhausted := by
  have passed? : f.passed?.Faultless := .bind .get fun _ ↦ .pure _
  cases q with
  | fulfill count =>
    rw [counting_eq_error (.pure _) ends, overflows]
    cases p.canCount count f.chain.length <;> rfl
  | param offset =>
    cases given : f.param p offset w with
    | ok v u' =>
      rw [answer, Run.bind_of_ok given] at ends
      contradiction
    | error first u' =>
      rw [answer, Run.bind_of_error given] at ends
      cases ends
      exact param_eq_error fills given
  | fill text => exact ((fills text).bind fun _ ↦ .pure _) w stop u ends
  | host lookup =>
    exact (Run.Faultless.bind (.bind (.emit _) fun _ ↦ .pure _) fun _ ↦ .pure _) w stop u ends
  | cancelled => exact (passed?.bind fun _ ↦ .pure _) w stop u ends
  | note => exact (passed?.bind fun _ ↦ .bind (.emit _) fun _ ↦ .pure _) w stop u ends
  | awaitCancel =>
    refine Run.Faultless.bind ?_ (fun _ ↦ .pure _) w stop u ends
    unfold awaitCancel
    split
    · exact .setClock _
    · exact .pure _
  | elapse nanos => exact ((Run.Faultless.setClock _).bind fun _ ↦ .pure _) w stop u ends
  | cursor | seem | lackParam | context | depth => contradiction

private theorem run_eq_fault_iff (h : Handler α) (p : Progress) (w : World) :
    (∃ u, f.run h p w = .error (.fault message) u) ↔ f.breakdown? h p w = some message := by
  induction h generalizing p w with
  | done a => exact ⟨nofun, nofun⟩
  | fault other =>
    rw [breakdown?, Option.some.injEq]
    refine ⟨fun ⟨u, eq⟩ ↦ ?_, fun eq ↦ ⟨w, eq ▸ rfl⟩⟩
    cases eq
    rfl
  | ask query next ih =>
    rw [breakdown?, run]
    cases ends : f.answer p query w with
    | ok r u =>
      rw [Run.bind_of_ok ends]
      exact ih r.1 r.2 u
    | error stop u =>
      rw [Run.bind_of_error ends, answer_eq_error fills ends]
      dsimp only
      split
      · rw [Option.some.injEq]
        refine ⟨fun ⟨u', eq⟩ ↦ ?_, fun eq ↦ ⟨u, eq ▸ rfl⟩⟩
        cases eq
        rfl
      · exact ⟨nofun, nofun⟩

/-- The resolution of a chain breaks down where one of its own handlers does. -/
theorem runChain_eq_fault_iff (w : World) :
    (∃ u, f.runChain w = .error (.fault message) u) ↔ f.BreaksDown w message := by
  have call (c : Call) : (∃ u, f.callEnd c = .error (.fault message) u) ↔
      f.breakdown? c.handler c.progress ((Run.emit (.called c.callee)).last c.world) =
        some message := by
    have emitted : Run.emit (.called c.callee) c.world =
        .ok () ((Run.emit (.called c.callee)).last c.world) := rfl
    rw [← run_eq_fault_iff fills, callEnd, Frame.call, Run.bind_of_ok emitted]
    cases ends : f.run c.handler c.progress _ with
    | ok r u =>
      rw [Run.bind_of_ok ends]
      constructor <;> rintro ⟨_, ⟨⟩⟩
    | error stop u => rw [Run.bind_of_error ends]
  simp only [runChain_eq_error_iff, BreaksDown, ← call]
  constructor
  · rintro ⟨u, c, mem, ends⟩
    exact ⟨c, mem, u, ends⟩
  · rintro ⟨c, mem, u, ends⟩
    exact ⟨u, c, mem, ends⟩

end

end Frame

end TextTags
