import TextTags.Proofs.Fill.Resemblance

/-!
# Choices between two texts

A choice fills its condition, then one of its two texts, and the chain goes on with the value of
that. The other text is not filled, so that nothing depends on it.
-/

namespace TextTags

open Text Run TextTags.Core

/-- Whether a chain begins with a choice, of a condition and the texts for its two cases, with more
segments after it. -/
structure Chain.Chooses (condition pass fail : String) (rest : List Segment) (c : Chain) :
    Prop where
  root : c.root.key = "tern"
  condition : c.root.param = some condition
  branches : ∃ first second, c.rest = first :: second :: rest ∧ first.key = "pass" ∧
    first.param = some pass ∧ second.key = "fail" ∧ second.param = some fail

private theorem Chain.Chooses.three_le {condition pass fail : String} {rest : List Segment}
    {c : Chain} (shape : c.Chooses condition pass fail rest) : 3 ≤ c.length := by
  obtain ⟨-, -, first, second, eq, -⟩ := shape
  simp [Chain.length, Chain.segments, eq]

/-- The text that is taken where the condition has a value. -/
def Value.choose (condition : Value) (pass fail : String) : String :=
  if sameIgnoringCase (trim condition.asElement.toList) "true".toList then pass else fail

namespace Frame

variable {f : Frame} {α β : Type} {c c' : Chain} {p : Progress}
  {condition pass fail pass' fail' text : String} {rest : List Segment}

/-- A text filled for a handler; none once time has run out. -/
def fillInTime (f : Frame) (text : String) : Run (Option Value) := do
  match ← f.passed? with
  | some _ => return none
  | none => return some (← f.fill text)

/-- What comes of a choice, and how far the chain has come with it. -/
def choose (f : Frame) (condition pass fail : String) : Run (Option Value × Progress) := do
  match ← f.fillInTime condition with
  | none => return (none, {})
  | some v =>
    match ← f.fillInTime (v.choose pass fail) with
    | none => return (none, {})
    | some x => return (some x, { fulfilled := 2 })

private theorem param_eq_fillInTime {i : Nat} (found : ((f.on c).cursor p).param? i = some text) :
    (f.on c).param p i = f.fillInTime text := by
  unfold Frame.param fillInTime
  simp only [counting_of_param found]
  rw [found]
  rfl

section

variable (shape : c.Chooses condition pass fail rest)

include shape

private theorem hasBranches_of_chooses : hasBranches ((f.on c).cursor {}) = true := by
  obtain ⟨-, -, first, second, eq, passKey, passParam, failKey, failParam⟩ := shape
  simp [hasBranches, Cursor.isNamed, Cursor.hasParam, Cursor.key?, Cursor.param?, Cursor.segment?,
    Frame.cursor, Frame.on, Chain.segments, eq, passKey, passParam, failKey, failParam]

private theorem param?_of_chooses (v : Value) :
    ((f.on c).cursor {}).param? 0 = some condition ∧
      ((f.on c).cursor {}).param? (if Element.isTrue v.asElement then 1 else 2) =
        some (v.choose pass fail) := by
  obtain ⟨-, own, first, second, eq, -, passParam, -, failParam⟩ := shape
  refine ⟨own, ?_⟩
  have same : Element.isTrue v.asElement =
    sameIgnoringCase (trim v.asElement.toList) "true".toList := rfl
  unfold Value.choose
  rw [same]
  split <;> simp [Cursor.param?, Cursor.segment?, Frame.cursor, Frame.on, Chain.segments, eq,
    passParam, failParam]

/-- A choice fills nothing but the condition and the text that it takes. -/
theorem run_choice_of_chooses : (f.on c).run choice {} = f.choose condition pass fail := by
  have counted : ({} : Progress).fulfill 2 (f.on c).chain.length = { fulfilled := 2 } := by
    obtain ⟨-, -, first, second, eq, -⟩ := shape
    simp [Progress.fulfill, Frame.on, Chain.length, Chain.segments, eq]
  rw [run_choice, if_pos (hasBranches_of_chooses shape)]
  unfold branch Frame.choose
  rw [run_attempt, run_paramText, bind_assoc,
    param_eq_fillInTime (param?_of_chooses shape (.element "")).1]
  refine congrArg (f.fillInTime condition >>= ·) (funext fun filled ↦ ?_)
  cases filled with
  | none => rfl
  | some v =>
    simp only [pure_bind, Option.map_some]
    rw [run_attempt, run_attemptParam, bind_assoc, param_eq_fillInTime
      (param?_of_chooses shape v).2]
    refine congrArg (f.fillInTime (v.choose pass fail) >>= ·) (funext fun chosen ↦ ?_)
    cases chosen with
    | none => rfl
    | some x =>
      simp only [pure_bind]
      rw [run_fulfill (Progress.canCount_root (by decide) _), counted]

private theorem base?_of_chooses (core : f.env.registry = .core) :
    f.env.registry.base? c.root.key = some ⟨"tern", .element, choice⟩ := by
  rw [core, shape.root]
  exact Registry.base?_core_tern

/-- Only the segments before those that remain tell chains apart that choose. -/
theorem resembles_of_chooses (shape' : c'.Chooses condition pass' fail' rest) :
    c.Resembles Eq 3 c' := by
  obtain ⟨-, -, first, second, eq, -⟩ := shape
  obtain ⟨-, -, first', second', eq', -⟩ := shape'
  refine ⟨by simp [Chain.length, Chain.segments, eq, eq'], fun i le ↦ ?_⟩
  obtain ⟨i, rfl⟩ := Nat.exists_eq_add_of_le' le
  have same : c.segments[i + 3]? = c'.segments[i + 3]? := by
    simp only [Chain.segments, eq, eq', List.getElem?_cons_succ]
  rw [same]
  cases c'.segments[i + 3]? with
  | none => exact .none
  | some s => exact .some ⟨rfl, rfl, rfl⟩

end

section

variable {w u : World} {v : Value}

private theorem fillInTime_of_late {limit : Limit} (late : f.scope.passed? w.clock = some limit) :
    f.fillInTime text w = .ok none w := by
  refine (bind_of_ok (x := f.passed?) rfl).trans ?_
  rw [late]
  rfl

private theorem fillInTime_of_timely (timely : f.scope.passed? w.clock = none) :
    f.fillInTime text w = (f.fill text >>= fun v ↦ pure (some v)) w := by
  refine (bind_of_ok (x := f.passed?) rfl).trans ?_
  rw [timely]

private theorem fill_of_fillInTime (h : f.fillInTime text w = .ok (some v) u) :
    f.fill text w = .ok v u := by
  cases time : f.scope.passed? w.clock with
  | some limit =>
    rw [fillInTime_of_late time] at h
    cases h
  | none =>
    rw [fillInTime_of_timely time] at h
    cases filled : f.fill text w with
    | error =>
      rw [bind_of_error filled] at h
      contradiction
    | ok v' u' =>
      rw [bind_of_ok filled] at h
      cases h
      rfl

/-- A choice is the same for all texts among which it takes the same one. -/
theorem choose_congr (same : ∀ v u, f.fill condition w = .ok v u →
    v.choose pass fail = v.choose pass' fail') :
    f.choose condition pass fail w = f.choose condition pass' fail' w := by
  unfold Frame.choose
  cases ends : f.fillInTime condition w with
  | error => rw [bind_of_error ends, bind_of_error ends]
  | ok filled u =>
    rw [bind_of_ok ends, bind_of_ok ends]
    cases filled with
    | none => rfl
    | some v =>
      dsimp only
      rw [same v u (fill_of_fillInTime ends)]

private theorem choose_gives (f : Frame) (condition pass fail : String) :
    (f.choose condition pass fail).Gives fun x ↦ x.1.isSome → 2 ≤ x.2.fulfilled := by
  refine .bind .any fun filled _ ↦ ?_
  cases filled with
  | none => exact .pure nofun
  | some v =>
    refine .bind .any fun chosen _ ↦ ?_
    cases chosen with
    | none => exact .pure nofun
    | some x => exact .pure fun _ ↦ Nat.le_refl 2

variable (core : f.env.registry = .core) (shape : c.Chooses condition pass fail rest)

/-- The world in which a choice fills its condition. -/
def choosing (w : World) : World := (Run.emit (.called (.base "tern"))).last w

include shape

private theorem call_of_choose {x : Option Value × Progress}
    (ends : f.choose condition pass fail (choosing w) = .ok x u) :
    (f.on c).call (.base "tern") choice {} w = .ok x ((Run.emit (.returned (.base "tern")
      f.scope.depth x.1.isSome (f.scope.passed? u.clock).isSome)).last u) := by
  unfold Frame.call
  rw [run_choice_of_chooses shape]
  refine (bind_of_ok (x := Run.emit (.called (.base "tern"))) rfl).trans ?_
  exact (bind_of_ok ends).trans rfl

private theorem call_of_choose_error {stop : Stop}
    (ends : f.choose condition pass fail (choosing w) = .error stop u) :
    (f.on c).call (.base "tern") choice {} w = .error stop u := by
  unfold Frame.call
  rw [run_choice_of_chooses shape]
  refine (bind_of_ok (x := Run.emit (.called (.base "tern"))) rfl).trans ?_
  exact bind_of_error ends

include core

/-- Chains with choices that take the same text come to the same. -/
theorem runChain_choosing (shape' : c'.Chooses condition pass' fail' rest)
    (same : ∀ v u, f.fill condition (choosing w) = .ok v u →
      v.choose pass fail = v.choose pass' fail') :
    EndsAlike Eq (Outcome.Resembles Eq) ((f.on c).runChain w) ((f.on c').runChain w) := by
  have chosen := choose_congr same
  rw [runChain_of_base (base?_of_chooses shape core), runChain_of_base
    (base?_of_chooses shape' core)]
  cases ends : f.choose condition pass fail (choosing w) with
  | error stop u =>
    rw [bind_of_error (call_of_choose_error shape ends),
      bind_of_error (call_of_choose_error shape' (chosen.symm.trans ends))]
    exact .error rfl
  | ok x u =>
    -- Two segments are counted, and the root: past these, both chains have the same ones.
    rw [bind_of_ok (call_of_choose shape ends),
      bind_of_ok (call_of_choose shape' (chosen.symm.trans ends))]
    have counted := choose_gives f condition pass fail _ x u ends
    have byName : f.env.registry.Satisfies Handler.ByName Handler.ByName :=
      core ▸ Registry.core_byName
    exact afterBase_resembling (resembles_of_chooses shape shape') shape.three_le byName
      (shape.root.trans shape'.root.symm) counted rfl

/-- A chain that chooses goes on with what the text is filled with that it takes. -/
theorem runChain_chosen (timely : f.scope.passed? w.clock = none)
    (filled : f.fill condition (choosing w) = .ok v u) (timely' : f.scope.passed? u.clock = none) :
    (∀ x u', f.fill (v.choose pass fail) u = .ok x u' → f.scope.passed? u'.clock = none →
      (f.on c).runChain w = (f.on c).walk c.length x { fulfilled := 3, lastValid := some x }
        ((Run.emit (.returned (.base "tern") f.scope.depth true false)).last u')) ∧
    ∀ stop u', f.fill (v.choose pass fail) u = .error stop u' →
      (f.on c).runChain w = .error stop u' := by
  have condition : f.fillInTime condition (choosing w) = .ok (some v) u :=
    (fillInTime_of_timely (w := choosing w) timely).trans (bind_of_ok filled)
  rw [runChain_of_base (base?_of_chooses shape core)]
  refine ⟨fun x u' taken timely'' ↦ ?_, fun stop u' taken ↦ ?_⟩
  · have branch : f.fillInTime (v.choose pass fail) u = .ok (some x) u' :=
      (fillInTime_of_timely timely').trans (bind_of_ok taken)
    have ends : f.choose _ pass fail (choosing w) = .ok (some x, { fulfilled := 2 }) u' :=
      (bind_of_ok condition).trans ((bind_of_ok branch).trans rfl)
    have count : ({ fulfilled := 2 } : Progress).advance x c.length =
        { fulfilled := 3, lastValid := some x } := by
      simp [Progress.advance, Progress.fulfill, Nat.min_eq_left shape.three_le]
    rw [bind_of_ok (call_of_choose shape ends), timely'']
    refine (bind_of_ok (x := (f.on c).passed?) rfl).trans ?_
    change (match f.scope.passed? u'.clock with
      | some limit => _
      | none => (f.on c).walk c.length x (({ fulfilled := 2 } : Progress).advance x c.length)) _ = _
    rw [timely'', count]
    rfl
  · have branch : f.fillInTime (v.choose pass fail) u = .error stop u' :=
      (fillInTime_of_timely timely').trans (bind_of_error taken)
    have ends : f.choose _ pass fail (choosing w) = .error stop u' :=
      (bind_of_ok condition).trans (bind_of_error branch)
    exact bind_of_error (call_of_choose_error shape ends)

end

end Frame

namespace Env

variable {env : Env}

/-- A choice takes its first text where the condition is filled with `true`, in any letter case and
with any blanks around it, and its second text elsewhere. Nothing depends on the text that is not
taken: chains with other texts in its place come to one end, in one world, where the same was asked,
called and filled on the way. The root's value is what the text is filled with that is taken. -/
theorem resolve_choice (core : env.registry = .core) (levels : Nat) (s : Scope) (w : World)
    {condition pass fail : String} {rest : List Segment} {c : Chain}
    (shape : c.Chooses condition pass fail rest) :
    let fill := env.fillWithin levels (env.opening s w).1.deeper
    let passed? := (env.opening s w).1.deeper.passed?
    let start := (env.opening s w).2
    let f : Frame := ⟨env, (env.opening s w).1.deeper, fill, c⟩
    (∀ (pass' fail' : String) (c' : Chain), c'.Chooses condition pass' fail' rest →
      (∀ v u, fill condition (Frame.choosing start) = .ok v u →
        v.choose pass fail = v.choose pass' fail') →
      EndsAlike Eq (Outcome.Resembles Eq) (env.resolve (env.fillWithin levels) s c w)
        (env.resolve (env.fillWithin levels) s c' w)) ∧
    ∀ v u, fill condition (Frame.choosing start) = .ok v u → passed? start.clock = none →
      passed? u.clock = none →
      (∀ x u', fill (v.choose pass fail) u = .ok x u' → passed? u'.clock = none →
        f.runChain start = f.walk c.length x { fulfilled := 3, lastValid := some x }
          ((Run.emit (.returned (.base "tern") f.scope.depth true false)).last u')) ∧
      ∀ stop u', fill (v.choose pass fail) u = .error stop u' →
        f.runChain start = .error stop u' := by
  intro fill passed? start f
  refine ⟨fun pass' fail' c' shape' same ↦ ?_, fun v u filled timely timely' ↦ ?_⟩
  · have length := (Frame.resembles_of_chooses shape shape').length
    have alike := Frame.runChain_choosing (f := f) core shape shape' same
    exact resolve_resembling length (resolveInline_resembling length alike)
  · exact Frame.runChain_chosen (f := f) core shape timely filled timely'

end Env

/-- A choice with a condition that is true, and one attribute of its value. -/
def Chain.affirmed (fail : String) : Chain where
  origin := "tern[ True ].pass[yes].fail[" ++ fail ++ "].length"
  root := .named "tern" " True "
  rest := [.named "pass" "yes", .named "fail" fail, .named "length" none]

private theorem Chain.affirmed_chooses (fail : String) :
    (affirmed fail).Chooses " True " "yes" fail [.named "length" none] :=
  ⟨rfl, rfl, _, _, rfl, rfl, rfl, rfl, rfl⟩

/-- A tag that would halt, in the place of the text that is not taken, does what no text does. -/
theorem Env.resolve_choice_affirmed :
    let env : Env := { registry := .core }
    let resolve (fail : String) := env.resolve (env.fillWithin 4) {} (.affirmed fail)
    let inner := (env.opening {} {}).1.deeper
    let f : Frame := ⟨env, inner, env.fillWithin 4 inner, .affirmed "<none>"⟩
    EndsAlike Eq (Outcome.Resembles Eq) (resolve "<none>" {}) (resolve "" {}) ∧
      ∃ x u, x.asElement = "yes" ∧ f.runChain (env.opening {} {}).2 =
        f.walk 4 x { fulfilled := 3, lastValid := some x } u := by
  intro env resolve inner f
  let start := (env.opening {} {}).2
  have unlimited (clock : Nat) : inner.passed? clock = none := by
    have opened : (env.opening {} {}).1 = {} := by decide +kernel
    rw [show inner = Scope.deeper {} from congrArg Scope.deeper opened]
    rfl
  have values : ((f.fill " True " >>= fun v ↦ f.fill "yes" >>= fun x ↦ pure (v, x)).result
      (Frame.choosing start)).toOption.map
        (fun r ↦ (sameIgnoringCase (trim r.1.asElement.toList) "true".toList, r.2.asElement)) =
      some (true, "yes") := by decide +kernel
  obtain ⟨⟨v, x⟩, u, ends, eq⟩ := eq_ok_of_map_result values
  obtain ⟨truth, yes⟩ := Prod.mk.inj eq
  obtain ⟨v', u', filled, ends⟩ := eq_ok_of_bind ends
  obtain ⟨x', u'', taken, last⟩ := eq_ok_of_bind ends
  cases last
  have takes (fail : String) : v.choose "yes" fail = "yes" := if_pos truth
  obtain ⟨same, goes⟩ := env.resolve_choice rfl 4 {} {} (Chain.affirmed_chooses "<none>")
  have walks := (goes v u' filled (unlimited _) (unlimited _)).1 x u
    ((takes "<none>").symm ▸ taken) (unlimited _)
  refine ⟨same _ _ _ (Chain.affirmed_chooses "") fun v' u' filled' ↦ ?_, x, _, yes, walks⟩
  cases filled.symm.trans filled'
  rw [takes, takes]

end TextTags
