import TextTags.Proofs.Fill.Containment
import TextTags.Proofs.Fill.Timeout
import TextTags.Proofs.Parsed
import TextTags.Proofs.Registry.Tables
import TextTags.Proofs.Value.Reading

/-!
# Texts that stay as they are

A text whose tags all halt is left as it was written, whatever was filled inside of them. Each of
its fragments that is no literal is reported once. What is reported while a resolution is under way
comes from texts nested in a tag, so the reports of the text itself are those outside of
resolutions.
-/

namespace TextTags

open Run

/-- Whether a resolution of which no other is under way is under way after an event. `busy` says
whether one was before it. -/
def Event.leavesBusy (busy : Bool) : Event → Bool
  | .began depth => depth = 0 || busy
  | .ended depth _ _ => depth ≠ 0 && busy
  | _ => busy

/-- The events that happen while no resolution is under way. -/
def Event.outside (busy : Bool) : List Event → List Event
  | [] => []
  | e :: rest =>
    if busy || e.leavesBusy busy then outside (e.leavesBusy busy) rest
    else e :: outside (e.leavesBusy busy) rest

/-- Whether an event reports a failure. -/
def Event.isError : Event → Bool
  | .error _ => true
  | _ => false

/-- Whether an event marks no beginning and no end of a resolution above a depth. -/
def Event.MarksFrom (depth : Nat) : Event → Prop
  | .began d => depth ≤ d
  | .ended d _ _ => depth ≤ d
  | _ => True

namespace Event

private theorem MarksFrom.of_isStep {e : Event} (step : e.isStep) (depth : Nat) :
    e.MarksFrom depth := by
  cases e with
  | began | ended => contradiction
  | _ => trivial

private theorem MarksFrom.of_isFailure {e : Event} (failure : e.isFailure) (depth : Nat) :
    e.MarksFrom depth := by
  cases e with
  | began | ended => contradiction
  | _ => trivial

private theorem MarksFrom.above {e : Event} {upper depth : Nat} (le : upper ≤ depth)
    (h : e.MarksFrom depth) : e.MarksFrom upper := by
  cases e with
  | began | ended => exact Nat.le_trans le h
  | _ => trivial

/-- Marks of deeper resolutions change nothing. -/
theorem leavesBusy_of_marksFrom {e : Event} (h : e.MarksFrom 1) (busy : Bool) :
    e.leavesBusy busy = busy := by
  cases e with
  | began depth =>
    have deeper : depth ≠ 0 := Nat.ne_of_gt h
    simp [leavesBusy, deeper]
  | ended depth _ _ =>
    have deeper : depth ≠ 0 := Nat.ne_of_gt h
    simp [leavesBusy, deeper]
  | _ => rfl

private theorem outside_append {events : List Event} (h : ∀ e ∈ events, e.MarksFrom 1) (busy : Bool)
    (rest : List Event) :
    outside busy (events ++ rest) = (if busy then [] else events) ++ outside busy rest := by
  induction events with
  | nil => cases busy <;> rfl
  | cons e events ih =>
    obtain ⟨first, others⟩ := List.forall_mem_cons.1 h
    have still := leavesBusy_of_marksFrom first busy
    rw [List.cons_append, outside, still, ih others]
    cases busy <;> rfl

/-- Nothing that happens within a resolution is outside. -/
theorem outside_resolution {events : List Event} (h : ∀ e ∈ events, e.MarksFrom 1)
    (start stop : Nat) (rest : List Event) :
    outside false (.began 0 :: events ++ .ended 0 start stop :: rest) = outside false rest :=
  outside_append h true _

end Event

namespace Env

variable {env : Env} {fill : Scope → String → Run Value}

/-- Between the marks of a resolution there are only those of deeper ones. -/
theorem resolveTimed_marksFrom
    (fills : ∀ s text, (fill s text).Leaves (Event.MarksFrom s.depth)) (s : Scope) (chain : Chain) :
    (env.resolveTimed fill s chain).Leaves (Event.MarksFrom (s.depth + 1)) := by
  have inline (s : Scope) :
      (env.resolveInline fill s chain).Leaves (Event.MarksFrom (s.depth + 1)) :=
    resolveInline_leaves (Registry.asksOnly_of_forall (fun _ ↦ trivial) _)
      (fun step ↦ .of_isStep step _) (fun _ _ _ ↦ trivial) (fun raw _ ↦ fills s.deeper raw)
      fun text _ ↦ fills s.deeper text
  refine resolveTimed_leaves (fun step ↦ .of_isStep step _) (inline s) fun alone limit clock ↦ ?_
  exact (inline (Scope.ofJob limit clock)).imp fun e ↦ .above (alone ▸ Nat.le_succ 1)

private theorem resolve_marksFrom (fills : ∀ s text, (fill s text).Leaves (Event.MarksFrom s.depth))
    (s : Scope) (chain : Chain) : (env.resolve fill s chain).Leaves (Event.MarksFrom s.depth) := by
  refine resolve_leaves_of_timed (Nat.le_refl s.depth) (fun _ _ ↦ Nat.le_refl s.depth) ?_
  exact (resolveTimed_marksFrom fills s chain).imp fun e ↦ .above (Nat.le_succ s.depth)

/-- What is filled at a depth leaves no marks above it. -/
theorem fillWithin_marksFrom (env : Env) (levels : Nat) (s : Scope) (text : String) :
    (env.fillWithin levels s text).Leaves (Event.MarksFrom s.depth) :=
  fillWithin_leaves_of_resolve
    (fun _ ↦ reportsAlike_leaves (fun _ _ _ ↦ trivial) fun _ _ failure ↦ .of_isFailure failure _)
    (fun _ _ ↦ trivial) resolve_marksFrom levels s text

end Env

/-! ## Failures outside of resolutions -/

namespace Run

variable {α β : Type}

/-- A run that ends with a value and reports so many failures outside of resolutions. -/
structure Reports (x : Run α) (w : World) (a : α) (failures : Nat) : Prop where
  ends : ∃ u, x w = .ok a u
  trace : ∃ events own : List Event, (x.last w).trace = w.trace ++ events ∧
    (∀ rest, Event.outside false (events ++ rest) = own ++ Event.outside false rest) ∧
    own.countP Event.isError = failures

namespace Reports

variable {x : Run α} {f : α → Run β} {w : World} {a : α} {b : β} {n k : Nat}

private theorem pure (a : α) (w : World) : Reports (Pure.pure a) w a 0 where
  ends := ⟨w, rfl⟩
  trace := ⟨[], [], (List.append_nil _).symm, fun _ ↦ rfl, rfl⟩

private theorem bind (h : Reports x w a n) (next : Reports (f a) (x.last w) b k) :
    Reports (x >>= f) w b (n + k) := by
  obtain ⟨u, first⟩ := h.ends
  obtain ⟨events, own, eq, outside, count⟩ := h.trace
  obtain ⟨events', own', eq', outside', count'⟩ := next.trace
  rw [last_of_ok first] at next eq eq'
  obtain ⟨u', second⟩ := next.ends
  refine ⟨⟨u', (bind_of_ok first).trans second⟩, events ++ events', own ++ own', ?_, fun rest ↦ ?_,
    ?_⟩
  · rw [last_of_ok ((bind_of_ok first).trans second), ← last_of_ok second, eq', eq,
      List.append_assoc]
  · rw [List.append_assoc, outside, outside', List.append_assoc]
  · rw [List.countP_append, count, count']

private theorem emit {e : Event} (h : e.MarksFrom 1) (w : World) :
    Reports (Run.emit e) w () (if e.isError then 1 else 0) where
  ends := ⟨_, rfl⟩
  trace := by
    refine ⟨[e], [e], rfl, fun rest ↦ ?_, List.countP_singleton⟩
    exact Event.outside_append (fun _ mem ↦ List.mem_singleton.1 mem ▸ h) false rest

private theorem forM_emit {events : List Event} (h : ∀ e ∈ events, e.MarksFrom 1) (w : World) :
    Reports (events.forM Run.emit) w () (events.countP Event.isError) := by
  induction events generalizing w with
  | nil => exact pure () w
  | cons e rest ih =>
    obtain ⟨first, others⟩ := List.forall_mem_cons.1 h
    rw [List.countP_cons, Nat.add_comm]
    exact (emit first w).bind (ih others _)

/-- What a run added to the trace, as far as it is its own. -/
theorem countP_outside (h : Reports x w a n) :
    (Event.outside false (x.adds w)).countP Event.isError = n := by
  obtain ⟨events, own, eq, outside, rfl⟩ := h.trace
  have own_eq := outside []
  rw [List.append_nil, Event.outside, List.append_nil] at own_eq
  rw [adds, eq, List.drop_left, own_eq]

end Reports

end Run

namespace Env

variable {env : Env} {levels : Nat} {w : World}

/-- A resolution of which no other is under way reports nothing outside. -/
theorem reports_resolve {chain : Chain} {outcome : Outcome} {u : World}
    (h : env.resolve (env.fillWithin levels) {} chain w = .ok outcome u) :
    Reports (env.resolve (env.fillWithin levels) {} chain) w outcome 0 := by
  refine ⟨⟨u, h⟩, ?_⟩
  rw [last_of_ok h]
  let began : World := { w with trace := w.trace ++ [.began 0] }
  cases ends : env.resolveTimed (env.fillWithin levels) {} chain began with
  | error stop u' =>
    rw [resolve, marked_of_error ends] at h
    contradiction
  | ok outcome' u' =>
    rw [resolve, marked_of_ok ends] at h
    cases h
    obtain ⟨events, eq, deeper⟩ :=
      (resolveTimed_marksFrom (env.fillWithin_marksFrom levels) {} chain began).trace
    rw [last_of_ok ends] at eq
    refine ⟨.began 0 :: (events ++ [.ended 0 w.clock u'.clock]), [], ?_, fun rest ↦ ?_, rfl⟩
    · simp [eq, began]
    · rw [List.cons_append, List.append_assoc]
      exact Event.outside_resolution deeper _ _ rest

/-- How many failures are reported where so many are found. -/
def shown (env : Env) (failures : Nat) : Nat := if env.context.showErrors then failures else 0

private theorem shown_zero (env : Env) : env.shown 0 = 0 := ite_self 0

private theorem shown_add (env : Env) (n k : Nat) :
    env.shown (n + k) = env.shown n + env.shown k := by
  unfold shown
  split <;> rfl

private theorem reports_report {events : List Event} (h : ∀ e ∈ events, e.isFailure) (w : World) :
    Reports (env.report events) w () (env.shown (events.countP Event.isError)) := by
  unfold report shown
  split
  · exact .forM_emit (fun e mem ↦ .of_isFailure (h e mem) 1) w
  · exact .pure () w

/-- Of all that is said about a tag that gave no value, one report is of the failure. -/
theorem countP_events (raw : String) (halt : Halt) :
    (Report.events raw halt).countP Event.isError = 1 := by
  unfold Report.events
  dsimp only
  split <;> cases halt.lastValid <;> cases halt.almost.isEmpty <;> rfl

end Env

/-! ## Texts -/

/-- Whether a chain came to a halt. -/
def Outcome.isHalted : Outcome → Bool
  | .fulfilled _ _ => false
  | .halted _ => true

/-- Whether a fragment is one that is reported if it gives no value. -/
def Fragment.isReported : Fragment → Bool
  | .literal _ => false
  | .tag _ => true
  | .issue _ _ => true

namespace Env

/-- Whether a fragment is no tag, or one without an alternative whose chain halts. -/
def halts (env : Env) (levels : Nat) (fragment : Fragment) (w : World) : Bool :=
  match fragment with
  | .tag tag => tag.chain.alternative.isNone &&
    ((env.resolve (env.fillWithin levels) {} tag.chain).result w).toOption.any Outcome.isHalted
  | _ => true

/-- Whether all tags among fragments halt, each in the world that the fragments before it leave. -/
def allHalt (env : Env) (levels : Nat) : List Fragment → World → Bool
  | [], _ => true
  | fragment :: rest, w => env.halts levels fragment w &&
    env.allHalt levels rest ((env.fillFragment (env.fillWithin levels) {} fragment).last w)

section

variable {env : Env} {levels : Nat} {w : World}

private theorem eq_halted_of_halts {tag : Tag} (h : env.halts levels (.tag tag) w) :
    tag.chain.alternative = none ∧ ∃ halt u,
      env.resolve (env.fillWithin levels) {} tag.chain w = .ok (.halted halt) u := by
  obtain ⟨alone, halted⟩ := Bool.and_eq_true_iff.1 h
  refine ⟨Option.isNone_iff_eq_none.1 alone, ?_⟩
  unfold result at halted
  split at halted
  · next outcome u ends =>
    cases outcome with
    | fulfilled => contradiction
    | halted halt => exact ⟨halt, u, ends⟩
  · contradiction

/-- A tag that halts is left as it was written, and its failure is reported. -/
theorem reports_readTag {tag : Tag} (h : env.halts levels (.tag tag) w) :
    Reports (env.readTag (env.fillWithin levels) {} tag) w (.element ("<" ++ tag.raw ++ ">"))
      (env.shown 1) := by
  obtain ⟨alone, halt, u, halted⟩ := eq_halted_of_halts h
  rw [← Nat.zero_add (env.shown 1)]
  refine (reports_resolve halted).bind ?_
  dsimp only
  rw [alone, ← countP_events tag.raw halt]
  exact (reports_report (Report.events_isFailure _ _) _).bind
    (f := fun _ ↦ pure (Value.element ("<" ++ tag.raw ++ ">"))) (.pure _ _)

/-- A fragment that halts gives the text that it was cut from. -/
theorem reports_fillFragment {fragment : Fragment} (h : env.halts levels fragment w) :
    Reports (env.fillFragment (env.fillWithin levels) {} fragment) w fragment.source
      (env.shown (if fragment.isReported then 1 else 0)) := by
  cases fragment with
  | literal text =>
    rw [Fragment.isReported, if_neg Bool.false_ne_true, shown_zero]
    exact .pure text w
  | tag tag =>
    have whole := (reports_readTag h).bind (f := fun v ↦ pure v.identity) (.pure _ _)
    rwa [Value.identity_element] at whole
  | issue message source =>
    have failure : ∀ e ∈ [Event.error message], e.isFailure := fun e mem ↦
      List.mem_singleton.1 mem ▸ rfl
    exact (reports_report failure w).bind (f := fun _ ↦ pure source) (.pure source _)

private theorem reports_fillFragments {fragments : List Fragment}
    (h : env.allHalt levels fragments w) :
    Reports (env.fillFragments (env.fillWithin levels) {} fragments) w
      (String.join (fragments.map Fragment.source))
      (env.shown (fragments.countP Fragment.isReported)) := by
  induction fragments generalizing w with
  | nil =>
    rw [List.countP_nil, shown_zero]
    exact .pure "" w
  | cons fragment rest ih =>
    obtain ⟨first, others⟩ := Bool.and_eq_true_iff.1 h
    rw [List.map_cons, String.join_cons, List.countP_cons, shown_add, Nat.add_comm]
    exact (reports_fillFragment first).bind (f := fun text ↦ do
      return text ++ (← env.fillFragments (env.fillWithin levels) {} rest))
      ((ih others).bind (f := fun others ↦ pure (fragment.source ++ others)) (.pure _ _))

/-- A text all of whose tags halt gives a value that is written as the text. -/
theorem reports_fillText {text : String} (faithful : w.cache.Faithful)
    (h : env.allHalt levels (Parsed.ofText text).fragments ((Run.parse text).last w)) :
    ∃ v, v.identity = text ∧ Reports (env.fillText (env.fillWithin levels) {} text) w v
      (env.shown ((Parsed.ofText text).fragments.countP Fragment.isReported)) := by
  have whole : String.join ((Parsed.ofText text).fragments.map Fragment.source) = text :=
    Parsed.source_ofText text
  by_cases empty : text = ""
  · subst empty
    have nothing : (Parsed.ofText "").fragments.countP Fragment.isReported = 0 := rfl
    refine ⟨.element "", Value.identity_element _, ?_⟩
    rw [nothing, shown_zero]
    exact .pure _ w
  · have cut : Reports (Run.parse text) w (w.cache.getOrParse text).1 0 :=
      ⟨⟨_, rfl⟩, [.parsed text], [.parsed text], rfl, fun _ ↦ rfl, rfl⟩
    unfold fillText
    rw [if_neg empty, ← Nat.zero_add (env.shown _)]
    cases single : (Parsed.ofText text).single? with
    | some tag =>
      have fragments := Parsed.fragments_of_single single
      rw [fragments] at h whole ⊢
      refine ⟨.element ("<" ++ tag.raw ++ ">"), ?_, cut.bind ?_⟩
      · rw [Value.identity_element, ← whole]
        simp [Fragment.source]
      · rw [Cache.parsed_getOrParse faithful text, single]
        exact reports_readTag (Bool.and_eq_true_iff.1 h).1
    | none =>
      refine ⟨.element text, Value.identity_element _, cut.bind ?_⟩
      rw [Cache.parsed_getOrParse faithful text, single]
      have filled := (reports_fillFragments h).bind (f := fun text ↦ pure (Value.element text))
        (.pure _ _)
      rwa [whole] at filled

end

/-- Text whose tags all halt without an alternative is left exactly as it was written, and where
failures are shown each of its tags and issues is reported once, whatever is reported of texts
nested in it. -/
theorem fillString_unfilled (env : Env) (levels : Nat) (text : String) {w : World}
    (faithful : w.cache.Faithful)
    (halts : env.allHalt levels (Parsed.ofText text).fragments ((Run.parse text).last w)) :
    let run := env.fillString (levels + 1) text
    run.result w = .ok text ∧
      (env.context.showErrors → (Event.outside false (run.adds w)).countP Event.isError =
        (Parsed.ofText text).fragments.countP Fragment.isReported) := by
  intro run
  obtain ⟨v, identity, filled⟩ := reports_fillText faithful halts
  have written : Reports (pure v.identity) ((env.fillText (env.fillWithin levels) {} text).last w)
      v.identity 0 := .pure _ _
  have reports : Reports run w v.identity _ :=
    filled.bind (f := fun v : Value ↦ (pure v.identity : Run String)) written
  obtain ⟨u, ends⟩ := reports.ends
  refine ⟨identity ▸ result_of_ok ends, fun shows ↦ ?_⟩
  rw [reports.countP_outside, Nat.add_zero, shown, if_pos shows]

/-- A value in a parameter, a failure in a parameter, a tag that does not parse, and a bracket that
is not closed: five failures of the text itself, one of a text in it. -/
theorem fillString_unfilled_mixed :
    let env : Env := { registry := .core }
    let text := "a <element[<element[x]>].nope>é<element[<none>].nope> <a[b><none>  <"
    let run := env.fillString 35 text
    run.result {} = .ok text ∧
      (Event.outside false (run.adds {})).countP Event.isError = 5 ∧
      (run.adds {}).countP Event.isError = 6 := by
  rw [Registry.core_eq_tables]
  intro env text run
  have halts : env.allHalt 34 (Parsed.ofText text).fragments ((Run.parse text).last {}) := by
    decide +kernel
  obtain ⟨left, shown⟩ := env.fillString_unfilled 34 text Cache.faithful_empty halts
  exact ⟨left, (shown rfl).trans (by decide +kernel), by decide +kernel⟩

end Env

end TextTags
