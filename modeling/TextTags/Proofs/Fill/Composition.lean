import TextTags.Proofs.Fill.Bases
import TextTags.Proofs.Fill.Run
import TextTags.Proofs.Registry.Tables

/-!
# Chains put together

After its base a chain is a fold: each segment makes a value of the value before it, whatever stands
around. So the segments before a halt are a chain that is fulfilled with the last value there was,
and a segment more on a fulfilled chain does to its value what it does to that value alone.
-/

namespace TextTags

open Run

/-- How far a chain came: whether to its end, over how many segments, and to which value. -/
structure Extent where
  complete : Bool
  count : Nat
  value : Option Value

/-- How far a chain with an outcome came. -/
def Outcome.extent : Outcome → Extent
  | .fulfilled v count => ⟨true, count, some v⟩
  | .halted halt => ⟨false, halt.index, halt.lastValid⟩

/-- How far segments take a value, with a count of those before them. -/
def march (apply : Value → Segment → Except Stop (Option Value)) (v : Value) (count : Nat) :
    List Segment → Except Stop Extent
  | [] => .ok ⟨true, count, some v⟩
  | s :: rest =>
    match apply v s with
    | .ok (some next) => march apply next (count + 1) rest
    | .ok none => .ok ⟨false, count, some v⟩
    | .error stop => .error stop

section

variable {apply : Value → Segment → Except Stop (Option Value)} {v : Value} {n m : Nat}
  {segments : List Segment} {value : Option Value}

/-- Up to where it halts, a march is complete. -/
theorem march_take (h : march apply v n segments = .ok ⟨false, m, value⟩) :
    ∃ last, value = some last ∧ n ≤ m ∧ m < n + segments.length ∧
      march apply v n (segments.take (m - n)) = .ok ⟨true, m, some last⟩ := by
  induction segments generalizing v n with
  | nil => simp [march] at h
  | cons s rest ih =>
    unfold march at h
    split at h
    · next next applied =>
      obtain ⟨last, hne, le, lt, taken⟩ := ih h
      refine ⟨last, hne, by omega, by simp only [List.length_cons]; omega, ?_⟩
      have more : m - n = (m - (n + 1)) + 1 := by omega
      rw [more, List.take_succ_cons, march, applied]
      exact taken
    · obtain ⟨-, rfl, rfl⟩ := Extent.mk.inj (Except.ok.inj h)
      exact ⟨v, rfl, Nat.le_refl _, by simp, by rw [Nat.sub_self]; rfl⟩
    · contradiction

/-- After a complete march, more segments go on with its value. -/
theorem march_append (h : march apply v n segments = .ok ⟨true, m, value⟩) (more : List Segment) :
    m = n + segments.length ∧ ∃ last, value = some last ∧
      march apply v n (segments ++ more) = march apply last m more := by
  induction segments generalizing v n with
  | nil =>
    obtain ⟨-, rfl, rfl⟩ := Extent.mk.inj (Except.ok.inj h)
    exact ⟨rfl, v, rfl, rfl⟩
  | cons s rest ih =>
    unfold march at h
    split at h
    · next next applied =>
      obtain ⟨eq, last, hne, whole⟩ := ih h
      refine ⟨by simp only [List.length_cons]; omega, last, hne, ?_⟩
      rw [List.cons_append, march, applied]
      exact whole
    · simp at h
    · contradiction

end

/-- Whether a resolution, where it comes to an end, halts with nothing fulfilled. -/
def Outcome.Barren (r : Except Stop Outcome) : Prop :=
  ∀ outcome, r = .ok outcome → outcome.extent.complete = false ∧ outcome.extent.count = 0

private theorem Outcome.eq_fulfilled {r : Except Stop Outcome} {v : Value} {n : Nat}
    (h : r.map Outcome.extent = .ok ⟨true, n, some v⟩) : r = .ok (.fulfilled v n) := by
  cases r with
  | error => contradiction
  | ok outcome =>
    cases outcome with
    | fulfilled => simp_all [Except.map, Outcome.extent]
    | halted => simp [Except.map, Outcome.extent] at h

private theorem Outcome.eq_error {r : Except Stop Outcome} {stop : Stop}
    (h : r.map Outcome.extent = .error stop) : r = .error stop := by
  cases r with
  | error => exact congrArg Except.error (Except.error.inj h)
  | ok => contradiction

private theorem Outcome.exists_halted {r : Except Stop Outcome} {value : Option Value} {n : Nat}
    (h : r.map Outcome.extent = .ok ⟨false, n, value⟩) :
    ∃ halt, r = .ok (.halted halt) ∧ halt.index = n ∧ halt.lastValid = value := by
  cases r with
  | error => contradiction
  | ok outcome =>
    cases outcome with
    | fulfilled => simp [Except.map, Outcome.extent] at h
    | halted halt => exact ⟨halt, rfl, by simp_all [Except.map, Outcome.extent]⟩

namespace Frame

variable {f : Frame} {c : Chain}

/-- A segment applied to a value, with nothing before or after it. -/
def applied (f : Frame) (v : Value) (s : Segment) : Run (Except Halt Value) := do
  return (← (f.on ⟨s.text, s, []⟩).dispatch v {}).1

/-- What a segment makes of a value in a world. -/
def makes (f : Frame) (w : World) (v : Value) (s : Segment) : Except Stop (Option Value) :=
  ((f.applied v s).result w).map Except.toOption

/-- What comes of a segment in a chain and of the segment alone. -/
inductive AppliedAlone (p : Progress) : Except Halt Value × Progress → Except Halt Value → Prop
  | ok (v : Value) : AppliedAlone p (.ok v, p) (.ok v)
  | error {h h' : Halt} {q : Progress} (index : h.index = p.fulfilled)
    (last : h.lastValid = p.lastValid) : AppliedAlone p (.error h, q) (.error h')

private theorem dispatch_applied (fills : f.FillsTimely) {onBase : Handler (Option Value) → Prop}
    (core : f.env.registry.Satisfies onBase Handler.Local) (v : Value) {p : Progress}
    {s s' : Segment}
    (present : ((f.on c).cursor p).segment? 0 = some s) (same : s.bare = s'.bare) :
    Alike (World.BothTimely f.scope) (AppliedAlone p) ((f.on c).dispatch v p) (f.applied v s') := by
  have alone : ((f.on ⟨s'.text, s', []⟩).cursor {}).segment? 0 = some s' := rfl
  refine (dispatch_timely fills core v present alone same).map_right ?_
  rintro _ _ (next | ⟨index, last, -, -⟩)
  · exact .ok next
  · exact .error index last

private theorem result_passed?_bind {β : Type} {w : World} (timely : w.Timely f.scope)
    (g : Option Limit → Run β) : ((f.on c).passed? >>= g).result w = (g none).result w := by
  change (g (f.scope.passed? w.clock)).result w = _
  rw [timely.2]

/-- After its base, a chain is a march. -/
theorem walk_march (fills : f.FillsTimely) {onBase : Handler (Option Value) → Prop}
    (core : f.env.registry.Satisfies onBase Handler.Local) {w₀ : World}
    (timely₀ : w₀.Timely f.scope)
    (steps : Nat) (v : Value) (p : Progress) {w : World} (timely : w.Timely f.scope)
    (enough : c.length ≤ p.fulfilled + steps) (last : p.lastValid = some v) :
    (((f.on c).walk steps v p).result w).map Outcome.extent =
      march (f.makes w₀) v p.fulfilled (c.bare.drop p.fulfilled) := by
  have length : c.bare.length = c.length := List.length_map _
  -- The chain is walked in one world and marched in another. Both stay in time, and what a segment
  -- is applied to does not tell them apart, so that the world is free in the induction.
  induction steps generalizing v p w with
  | zero =>
    rw [List.drop_eq_nil_of_le (by omega)]
    rfl
  | succ steps ih =>
    have chain : (f.on c).chain = c := rfl
    unfold walk
    rw [chain]
    split
    · next finished =>
      rw [List.drop_eq_nil_of_le (by omega)]
      rfl
    · next more =>
      have place : p.fulfilled < c.segments.length := Nat.not_le.1 more
      have present : ((f.on c).cursor p).segment? 0 = some c.segments[p.fulfilled] :=
        List.getElem?_eq_getElem place
      have bare : c.bare.drop p.fulfilled =
          c.segments[p.fulfilled].bare :: c.bare.drop (p.fulfilled + 1) := by
        rw [List.drop_eq_getElem_cons (by omega)]
        simp [Chain.bare]
      have same : c.segments[p.fulfilled].bare = c.segments[p.fulfilled].bare.bare := rfl
      have alike := dispatch_applied fills core v present same ⟨timely, timely₀⟩
      rw [result_passed?_bind timely, bare, march]
      dsimp only
      generalize ends : (f.on c).dispatch v p w = r, alone : f.applied v _ w₀ = r' at alike
      cases alike with
      | error worlds =>
        rw [makes, result_of_error alone, result_bind_of_error ends]
        rfl
      | @ok _ _ u _ value worlds =>
        rw [makes, result_of_ok alone, result_bind_of_ok ends]
        cases value with
        | error index before =>
          change Except.ok (Extent.mk false _ _) = _
          rw [index, before, last]
          rfl
        | ok next =>
          have count : (p.advance next c.length).fulfilled = p.fulfilled + 1 :=
            Nat.min_eq_left place
          have rest := ih next (p.advance next c.length) worlds.1 (by omega) rfl
          rw [count] at rest
          dsimp only
          rw [result_passed?_bind worlds.1]
          exact rest

/-- How a chain goes on from what its base came to. -/
def afterBase (f : Frame) (x : Option Value × Progress) : Run Outcome := do
  match ← f.passed? with
  | some limit => return .halted (x.2.halt f.chain (.timeout limit) [])
  | none =>
    match x.1 with
    | none => return .halted (x.2.halt f.chain (.unresolvedBase f.chain.root.key true) [])
    | some v => f.walk f.chain.length v (x.2.advance v f.chain.length)

/-- A chain whose root names a base begins with a call of it. -/
theorem runChain_of_base {base : Base} (found : f.env.registry.base? c.root.key = some base) :
    (f.on c).runChain = (f.on c).call (.base base.name) base.handler {} >>= (f.on c).afterBase := by
  have here : (f.on c).env.registry.base? (f.on c).chain.root.key = some base := found
  unfold runChain
  dsimp only
  rw [here]
  rfl

/-- A chain whose root names no base is halted there. -/
theorem runChain_of_unresolved (found : f.env.registry.base? c.root.key = none) :
    (f.on c).runChain = pure (.halted (Halt.atRoot c (.unresolvedBase c.root.key false))) := by
  have here : (f.on c).env.registry.base? (f.on c).chain.root.key = none := found
  unfold runChain
  dsimp only
  rw [here]
  rfl

private theorem result_afterBase_none {w : World} (timely : w.Timely f.scope) (p : Progress) :
    ((f.on c).afterBase (none, p)).result w =
      .ok (.halted (p.halt c (.unresolvedBase c.root.key true) [])) :=
  result_passed?_bind timely _

private theorem result_afterBase_some {w : World} (timely : w.Timely f.scope) (v : Value)
    (p : Progress) :
    ((f.on c).afterBase (some v, p)).result w =
      ((f.on c).walk c.length v (p.advance v c.length)).result w :=
  result_passed?_bind timely _

private theorem barren_of_unresolved (found : f.env.registry.base? c.root.key = none) (w : World) :
    Outcome.Barren ((f.on c).runChain.result w) := by
  intro outcome ends
  rw [runChain_of_unresolved found] at ends
  obtain rfl := Except.ok.inj ends
  exact ⟨rfl, rfl⟩

section

variable {base : Base} (found : f.env.registry.base? c.root.key = some base) {w u : World}

include found

private theorem barren_of_error {stop : Stop}
    (call : (f.on c).call (.base base.name) base.handler {} w = .error stop u) :
    Outcome.Barren ((f.on c).runChain.result w) := by
  intro outcome ends
  rw [runChain_of_base found, result_bind_of_error call] at ends
  contradiction

private theorem barren_of_none {p : Progress} (zero : p.fulfilled = 0) (timely : u.Timely f.scope)
    (call : (f.on c).call (.base base.name) base.handler {} w = .ok (none, p) u) :
    Outcome.Barren ((f.on c).runChain.result w) := by
  intro outcome ends
  rw [runChain_of_base found, result_bind_of_ok call, result_afterBase_none timely] at ends
  obtain rfl := Except.ok.inj ends
  exact ⟨rfl, zero⟩

private theorem march_of_some (fills : f.FillsTimely)
    (core : f.env.registry.Satisfies Core.IsForesighted Handler.Local) {k : Nat} (lt : k < c.length)
    {v : Value} (timely : u.Timely f.scope)
    (call : (f.on c).call (.base base.name) base.handler {} w = .ok (some v, { fulfilled := k }) u)
    {w₀ : World} (timely₀ : w₀.Timely f.scope) :
    ((f.on c).runChain.result w).map Outcome.extent =
      march (f.makes w₀) v (k + 1) (c.bare.drop (k + 1)) := by
  have count : (({ fulfilled := k } : Progress).advance v c.length).fulfilled = k + 1 :=
    Nat.min_eq_left lt
  have marched := walk_march fills core timely₀ (c := c) c.length v
    (({ fulfilled := k } : Progress).advance v c.length) timely (by omega) rfl
  rw [runChain_of_base found, result_bind_of_ok call, result_afterBase_some timely, marched, count]

end

/-- A chain comes to nothing, or its base gives a value from which it marches, and so does every
chain that agrees with it as far as the base counts. -/
theorem runChain_march (fills : f.FillsTimely)
    (core : f.env.registry.Satisfies Core.IsForesighted Handler.Local) (c : Chain) {w : World}
    (timely : w.Timely f.scope) :
    Outcome.Barren ((f.on c).runChain.result w) ∨
    ∃ k < c.length, ∃ v, ∀ c' : Chain, c'.bare.take (k + 1) = c.bare.take (k + 1) →
      ∀ w' w₀, w'.Timely f.scope → w₀.Timely f.scope →
        ((f.on c').runChain.result w').map Outcome.extent =
          march (f.makes w₀) v (k + 1) (c'.bare.drop (k + 1)) := by
  cases found : f.env.registry.base? c.root.key with
  | none => exact .inl (barren_of_unresolved found w)
  | some base =>
    -- Either the base gives nothing here, or it counts `k` segments and gives a value in every
    -- chain that begins with these.
    rcases core.base found f fills c with ⟨p, zero, nothing⟩ | ⟨k, lt, begun⟩
    · have hno : Alike (World.BothTimely f.scope) (fun x _ ↦ x = (none, p))
          ((f.on c).run base.handler {}) ((f.on c).run base.handler {}) := by
        rw [nothing]
        exact .pure rfl
      have alike := call_timely (.base base.name) (.base base.name) hno ⟨timely, timely⟩
      generalize call : (f.on c).call (.base base.name) base.handler {} w = r at alike
      cases alike with
      | error => exact .inl (barren_of_error found call)
      | ok value worlds =>
        subst value
        exact .inl (barren_of_none found zero worlds.1 call)
    · have calls (c' : Chain) (agree : c'.bare.take (k + 1) = c.bare.take (k + 1)) {w' : World}
          (timely' : w'.Timely f.scope) :=
        call_timely (.base base.name) (.base base.name) (begun c' agree) ⟨timely, timely'⟩
      have same := calls c rfl timely
      cases call : (f.on c).call (.base base.name) base.handler {} w with
      | error stop u => exact .inl (barren_of_error found call)
      | ok x u =>
        rw [call] at same calls
        cases same with
        | ok value worlds =>
          cases value with
          | none zero _ => exact .inl (barren_of_none found zero worlds.1 call)
          | some v =>
            refine .inr ⟨k, lt, v, fun c' agree w' w₀ timely' timely₀ ↦ ?_⟩
            have root : c'.root.key = c.root.key := Segment.key_eq (Chain.root_eq agree)
            have alike := calls c' agree timely'
            generalize call' : (f.on c').call (.base base.name) base.handler {} w' = r' at alike
            cases alike with
            | ok value worlds =>
              cases value with
              | some =>
                exact march_of_some (root ▸ found) fills core (Chain.le_length agree lt)
                  worlds.2 call' timely₀

/-- What a segment makes of a value does not depend on its fallback. -/
theorem makes_eq (fills : f.FillsTimely) {onBase : Handler (Option Value) → Prop}
    (core : f.env.registry.Satisfies onBase Handler.Local) {w : World} (timely : w.Timely f.scope)
    (v : Value) {s s' : Segment} (same : s.bare = s'.bare) : f.makes w v s = f.makes w v s' := by
  have alone : ((f.on ⟨s.text, s, []⟩).cursor {}).segment? 0 = some s := rfl
  have alike : Alike (World.BothTimely f.scope) (fun x y ↦ x.toOption = y.toOption)
      (f.applied v s) (f.applied v s') := by
    refine (dispatch_applied fills core v alone same).map_left ?_
    rintro _ _ (next | _) <;> rfl
  have ends := alike ⟨timely, timely⟩
  unfold makes result
  generalize f.applied v s w = r, f.applied v s' w = r' at ends ⊢
  cases ends with
  | ok value _ => exact congrArg Except.ok value
  | error _ => rfl

/-- The segments before a halt are a chain that is fulfilled. -/
theorem runChain_take (fills : f.FillsTimely)
    (core : f.env.registry.Satisfies Core.IsForesighted Handler.Local) {w : World}
    (timely : w.Timely f.scope) {halt : Halt}
    (ends : (f.on c).runChain.result w = .ok (.halted halt)) (later : 0 < halt.index) :
    ∃ v, halt.lastValid = some v ∧
      ∀ c' : Chain, c'.bare = c.bare.take halt.index → ∀ w' : World, w'.Timely f.scope →
        (f.on c').runChain.result w' = .ok (.fulfilled v halt.index) := by
  rcases runChain_march fills core c timely with nothing | ⟨k, -, v₀, marches⟩
  · exact absurd (nothing _ ends).2 (Nat.ne_of_gt later)
  · have whole := marches c rfl w w timely timely
    rw [ends] at whole
    obtain ⟨v, last, counted, -, -⟩ := march_take whole.symm
    refine ⟨v, last, fun c' bare w' timely' ↦ Outcome.eq_fulfilled ?_⟩
    have agree : c'.bare.take (k + 1) = c.bare.take (k + 1) := by
      rw [bare, List.take_take, Nat.min_eq_left counted]
    have whole' := marches c rfl w w' timely timely'
    rw [ends] at whole'
    obtain ⟨v', last', -, -, taken⟩ := march_take whole'.symm
    rw [marches c' agree w' w' timely' timely', bare, List.drop_take, taken]
    rw [Option.some.inj (last.symm.trans last')]

/-- One segment more does to the value of a chain what it does to it alone. -/
theorem runChain_append (fills : f.FillsTimely)
    (core : f.env.registry.Satisfies Core.IsForesighted Handler.Local) {w : World}
    (timely : w.Timely f.scope) {v : Value} {n : Nat}
    (ends : (f.on c).runChain.result w = .ok (.fulfilled v n)) : n = c.length ∧
      ∀ (segment : Segment) (c' : Chain), c'.bare = c.bare ++ [segment.bare] → ∀ w' : World,
        w'.Timely f.scope → ((f.on c').runChain.result w').map Outcome.extent =
          match f.makes w' v segment with
          | .ok (some next) => .ok ⟨true, n + 1, some next⟩
          | .ok none => .ok ⟨false, n, some v⟩
          | .error stop => .error stop := by
  have length : c.bare.length = c.length := List.length_map _
  rcases runChain_march fills core c timely with nothing | ⟨k, lt, v₀, marches⟩
  · exact absurd (nothing _ ends).1 (Bool.noConfusion ·)
  · have whole := marches c rfl w w timely timely
    rw [ends] at whole
    have counted := (march_append whole.symm []).1
    rw [List.length_drop] at counted
    refine ⟨by omega, fun segment c' bare w' timely' ↦ ?_⟩
    have agree : c'.bare.take (k + 1) = c.bare.take (k + 1) := by
      rw [bare, List.take_append_of_le_length (by omega)]
    have whole' := marches c rfl w w' timely timely'
    rw [ends] at whole'
    obtain ⟨-, v', last, more⟩ := march_append whole'.symm [segment.bare]
    obtain rfl := Option.some.inj last
    have alone : f.makes w' v segment.bare = f.makes w' v segment :=
      makes_eq fills core timely' v rfl
    rw [marches c' agree w' w' timely' timely', bare, List.drop_append_of_le_length
      (by omega), more,
      march, alone]
    rfl

end Frame

namespace Env

variable {env : Env}

/-- Chains are put together of their segments. The segments before a halt that is not at the root
are fulfilled with the last value there was; and one segment more on a fulfilled chain gives what it
makes of the chain's value alone, halts there where it makes nothing of it, and breaks down where it
does. -/
theorem resolveInline_append (core : env.registry = .core) (levels : Nat) (s : Scope) (c : Chain)
    {w : World} (timely : w.Timely s) :
    let f : Frame := ⟨env, s.deeper, env.fillWithin levels s.deeper, c⟩
    let resolve := env.resolveInline (env.fillWithin levels) s
    (∀ halt, (resolve c).result w = .ok (.halted halt) → 0 < halt.index →
      ∃ v, halt.lastValid = some v ∧
        ∀ c' : Chain, c'.bare = c.bare.take halt.index → ∀ w' : World, w'.Timely s →
          (resolve c').result w' = .ok (.fulfilled v halt.index)) ∧
    ∀ v n, (resolve c).result w = .ok (.fulfilled v n) → n = c.length ∧
      ∀ (segment : Segment) (c' : Chain), c'.bare = c.bare ++ [segment.bare] →
        ∀ w' : World, w'.Timely s →
          (∀ u m, (resolve c').result w' = .ok (.fulfilled u m) ↔
            (f.applied v segment).result w' = .ok (.ok u) ∧ m = c.length + 1) ∧
          (∀ failed, (f.applied v segment).result w' = .ok (.error failed) →
            ∃ halt, (resolve c').result w' = .ok (.halted halt) ∧ halt.index = c.length ∧
              halt.lastValid = some v) ∧
          (∀ message, (f.applied v segment).result w' = .error (.fault message) →
            (resolve c').result w' = .ok (.halted (Halt.atRoot c' (.workerFault message)))) ∧
          ((f.applied v segment).result w' = .error .exhausted →
            (resolve c').result w' = .error .exhausted) := by
  intro f resolve
  have fills : f.FillsTimely := env.fillWithin_timely core levels (Nat.succ_pos _)
  have foresighted : f.env.registry.Satisfies Core.IsForesighted Handler.Local :=
    core ▸ Registry.core_foresighted
  have contained (c' : Chain) (w' : World) : (resolve c').result w' =
      recovered (fun message ↦ .halted (Halt.atRoot c' (.workerFault message)))
        ((f.on c').runChain.result w') := result_contain _ _ _
  refine ⟨fun halt ends later ↦ ?_, fun v n ends ↦ ?_⟩
  · rw [contained] at ends
    rcases eq_ok_of_recovered ends with ends | ⟨message, atRoot⟩
    · obtain ⟨v, last, taken⟩ := Frame.runChain_take fills foresighted timely ends later
      refine ⟨v, last, fun c' bare w' timely' ↦ ?_⟩
      rw [contained, taken c' bare w' timely']
      rfl
    -- A breakdown halts at the root, and the halt is later.
    · obtain rfl := Outcome.halted.inj atRoot
      exact absurd later (Nat.lt_irrefl 0)
  · rw [contained] at ends
    rcases eq_ok_of_recovered ends with ends | ⟨message, atRoot⟩
    · obtain ⟨rfl, appended⟩ := Frame.runChain_append fills foresighted timely ends
      refine ⟨rfl, fun segment c' bare w' timely' ↦ ?_⟩
      have marched := appended segment c' bare w' timely'
      rw [contained]
      unfold Frame.makes at marched
      cases alone : (f.applied v segment).result w' with
      | error stop =>
        rw [alone] at marched
        rw [Outcome.eq_error marched]
        cases stop <;> simp [recovered]
      | ok made =>
        rw [alone] at marched
        cases made with
        | ok next =>
          rw [Outcome.eq_fulfilled marched]
          simp [recovered, eq_comm]
        | error failed =>
          obtain ⟨halt, halts, index, last⟩ := Outcome.exists_halted marched
          rw [halts]
          simp [recovered, index, last]
    · contradiction

end Env

/-- A segment without a fallback, written as it is looked up. -/
def Segment.named (name : String) (param : Option String) : Segment := ⟨name, name, param, none⟩

/-- A choice between two texts that takes the first of them, with attributes of it. -/
def Chain.chosen (names : List String) : Chain where
  origin := "tern[true].pass[a].fail[b]" ++ String.join (names.map ("." ++ ·))
  root := .named "tern" "true"
  rest := .named "pass" "a" :: .named "fail" "b" :: names.map (Segment.named · none)

/-- Whether a resolution halts at an index. -/
def Outcome.haltsAt (n : Nat) : Except Stop Outcome → Bool
  | .ok (.halted halt) => halt.index = n
  | _ => false

private theorem Outcome.exists_of_haltsAt {n : Nat} {r : Except Stop Outcome} (h : haltsAt n r) :
    ∃ halt, r = .ok (.halted halt) ∧ halt.index = n := by
  unfold haltsAt at h
  split at h
  · next halt => exact ⟨halt, rfl, of_decide_eq_true h⟩
  · contradiction

/-- After a choice, which takes three segments at once, a name that nothing knows halts the chain
with what the attribute before it gave, and another attribute applies to that. -/
theorem Env.resolveInline_append_chosen :
    let env : Env := { registry := .core }
    let resolve := env.resolveInline (env.fillWithin 5) {}
    let f : Frame := ⟨env, Scope.deeper {}, env.fillWithin 5 (Scope.deeper {}), .chosen ["length"]⟩
    World.Timely {} {} ∧ ∃ halt v,
      (resolve (.chosen ["length", "none"])).result {} = .ok (.halted halt) ∧ halt.index = 4 ∧
      halt.lastValid = some v ∧
      (resolve (.chosen ["length"])).result {} = .ok (.fulfilled v 4) ∧
      ∀ u m, (resolve (.chosen ["length", "as_list"])).result {} = .ok (.fulfilled u m) ↔
        (f.applied v (.named "as_list" none)).result {} = .ok (.ok u) ∧ m = 5 := by
  rw [Registry.core_eq_tables]
  intro env resolve f
  have core : env.registry = .core := Registry.core_eq_tables.symm
  have timely : World.Timely {} {} := ⟨Cache.faithful_empty, rfl⟩
  have halts : Outcome.haltsAt 4 ((resolve (.chosen ["length", "none"])).result {}) := by
    decide +kernel
  obtain ⟨halt, ends, index⟩ := Outcome.exists_of_haltsAt halts
  obtain ⟨before, -⟩ := env.resolveInline_append core 5 {} (.chosen ["length", "none"]) timely
  obtain ⟨v, last, taken⟩ := before halt ends (by omega)
  have fulfilled := taken (.chosen ["length"]) (by rw [index]; rfl) {} timely
  obtain ⟨-, after⟩ := env.resolveInline_append core 5 {} (.chosen ["length"]) timely
  obtain ⟨-, more⟩ := after v halt.index fulfilled
  exact ⟨timely, halt, v, ends, index, last, index ▸ fulfilled,
    (more (.named "as_list" none) (.chosen ["length", "as_list"]) rfl {} timely).1⟩

end TextTags
