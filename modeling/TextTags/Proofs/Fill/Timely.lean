import TextTags.Proofs.Cache
import TextTags.Proofs.Core
import TextTags.Proofs.Fill.Comparison
import TextTags.Proofs.Fill.Handlers
import TextTags.Proofs.Fill.Opening

/-!
# Chains with time left

While there is time left, what a handler of the core comes to depends on the segments that it looks
at and on nothing else. A base looks at no more segments than it counts, and one; an attribute looks
at the present one. Where no job begins, all of this is the same for callers that are akin.
-/

namespace TextTags

open Run

/-- A world in which the time of a scope has not run out, with a cache that holds what it should. -/
def World.Timely (s : Scope) (w : World) : Prop :=
  w.cache.Faithful ∧ s.passed? w.clock = none

/-- Two worlds of that sort. -/
def World.BothTimely (s : Scope) (w w' : World) : Prop := w.Timely s ∧ w'.Timely s

/-- A resolution keeps to the time limit of the job that it is in. -/
theorem World.bothTimely_deeper (s : Scope) : World.BothTimely s.deeper = World.BothTimely s := rfl

section

variable {s : Scope} {α β : Type} {V : α → β → Prop}

namespace Run

private theorem timely_emit (e e' : Event) : Alike (World.BothTimely s) Eq (emit e) (emit e') :=
  Alike.modify fun _ _ worlds ↦ worlds

private theorem timely_parse {text : String} {f : Shared → Run α} {g : Shared → Run β}
    (next : ∀ shared shared' : Shared, shared'.parsed = shared.parsed →
      Alike (World.BothTimely s) V (f shared) (g shared')) :
    Alike (World.BothTimely s) V (Run.parse text >>= f) (Run.parse text >>= g) := by
  intro w w' worlds
  have same : (w'.cache.getOrParse text).1.parsed = (w.cache.getOrParse text).1.parsed := by
    rw [Cache.parsed_getOrParse worlds.1.1, Cache.parsed_getOrParse worlds.2.1]
  exact next _ _ same ⟨⟨worlds.1.1.getOrParse text, worlds.1.2⟩,
    ⟨worlds.2.1.getOrParse text, worlds.2.2⟩⟩

/-- Cutting a text only gives its fragments. -/
theorem timely_parse_left {text : String} {f : Shared → Run α} {y : Run β}
    (next : ∀ shared : Shared, shared.parsed = Parsed.ofText text →
      Alike (World.BothTimely s) V (f shared) y) :
    Alike (World.BothTimely s) V (Run.parse text >>= f) y := by
  intro w w' worlds
  exact next _ (Cache.parsed_getOrParse worlds.1.1 text)
    ⟨⟨worlds.1.1.getOrParse text, worlds.1.2⟩, worlds.2⟩

/-- What gives a value from one world with time left gives it from all. -/
theorem timely_of_ok {x y : Run α} (h : Alike (World.BothTimely s) Eq x y) {w u : World} {a : α}
    (timely : w.Timely s) (ends : y w = .ok a u) :
    Alike (World.BothTimely s) Eq x (Pure.pure a) := by
  intro v v' worlds
  have same := h ⟨worlds.1, timely⟩
  rw [ends] at same
  generalize x v = r at same ⊢
  cases same with
  | ok value after => exact .ok value ⟨after.1, worlds.2⟩

/-- In time an event may stand in one run alone. -/
theorem timely_emit_left (e : Event) : Alike (World.BothTimely s) Eq (emit e) (Pure.pure ()) :=
  (Quiet.emit e).alike (Quiet.pure ()) rfl fun _ _ _ _ worlds ↦ worlds

end Run

/-- The comparison of runs from worlds with time left. -/
def Comparison.timely (s : Scope) : Comparison :=
  .alike (World.BothTimely s) fun _ _ ↦ timely_emit _ _

end

private theorem Frame.passed?_timely {f f' : Frame} {s : Scope} (token : f.scope.token = s.token)
    (token' : f'.scope.token = s.token) :
    Alike (World.BothTimely s) Eq f.passed? f'.passed? := by
  refine Alike.bind Alike.get fun w w' worlds ↦ Alike.pure ?_
  have time := worlds.1.2
  have time' := worlds.2.2
  unfold Scope.passed? at *
  rw [token, token', time, time']

/-- Environments that differ in nothing but in what the caller wants reported, and in whether the
host asks for the time limit to be kept. -/
structure Env.Akin (env env' : Env) : Prop where
  registry : env'.registry = env.registry
  answer : env'.host.answer = env.host.answer
  context : Context.Akin env.context env'.context

/-- An environment is akin to itself. -/
theorem Env.Akin.refl (env : Env) : env.Akin env := ⟨rfl, rfl, rfl, rfl, rfl, rfl⟩

namespace Frame

variable {f f' : Frame} {s : Scope}

/-- A discreet handler comes to the same for callers that are akin. -/
theorem called_akin (akin : f.env.Akin f'.env) (chain : f'.chain = f.chain)
    (token : f.scope.token = s.token) (token' : f'.scope.token = s.token)
    (params : ∀ raw, Alike (World.BothTimely s) Eq (f.fill raw) (f'.fill raw))
    {handler : Handler (Option Value)} (discreet : handler.Discreet) :
    CalledAlike (Comparison.timely s) f f' handler := by
  have passed? : Alike (World.BothTimely s) Eq f.passed? f'.passed? := passed?_timely token token'
  have run (p : Progress) : Alike (World.BothTimely s) Eq (f.run handler p) (f'.run handler p) := by
    induction handler generalizing p with
    | done a => exact .pure rfl
    | fault message => exact .throw _
    | ask query next ih =>
      by_cases asked : query = .context
      · subst asked
        change Alike _ _ (f.run (next f.env.context) p) (f'.run (next f'.env.context) p)
        rw [discreet.1 _ _ akin.context]
        exact ih _ (discreet.2 _) p
      · -- No other answer tells the two callers apart.
        let g : Frame := { f' with env := { f'.env with context := f.env.context } }
        have chains : g.chain = f.chain := chain
        have other : f'.answer p query = g.answer p query := by
          cases query with
          | context => contradiction
          | _ => rfl
        have rest : query.isPlain ∧ ∀ a, (next a).Discreet := by
          cases query with
          | context => contradiction
          | _ => exact discreet
        have answered : Alike (World.BothTimely s) Eq (f.answer p query) (g.answer p query) :=
          answer_compared (C := .timely s) chains rfl akin.answer passed? (fun raw _ ↦ params raw) p
            query rest.1
        rw [← other] at answered
        exact answered.bind_eq fun (a, p) ↦ ih a (rest.2 a) p
  exact calledAlike_of_run (fun _ ↦ timely_emit _ _) run passed? fun _ _ _ ↦ timely_emit _ _

end Frame

namespace Env

variable {env env' : Env} {fill fill' : Scope → String → Run Value} {s s' : Scope}

private theorem reportsAlike_timely (s : Scope) (env env' : Env) :
    ReportsAlike (Comparison.timely s) env env' where
  filled tag v := (env.reportFill_quiet tag v).alike (env'.reportFill_quiet tag v) rfl
    fun _ _ _ _ worlds ↦ worlds
  failures events _ := (env.report_quiet events).alike (env'.report_quiet events) rfl
    fun _ _ _ _ worlds ↦ worlds

/-- Where no job begins, chains are resolved alike for callers that are akin, however deep. -/
theorem resolve_akin (akin : env.Akin env')
    (discreet : env.registry.Satisfies Handler.Discreet Handler.Discreet)
    (token : s'.token = s.token) (inline : env.jobLimit? s = none)
    (inline' : env'.jobLimit? s' = none)
    (fills : ∀ text, Alike (World.BothTimely s) Eq (fill s.deeper text) (fill' s'.deeper text))
    (chain : Chain) :
    Alike (World.BothTimely s) Eq (env.resolve fill s chain) (env'.resolve fill' s' chain) := by
  let f : Frame := ⟨env, s.deeper, fill s.deeper, chain⟩
  let f' : Frame := ⟨env', s'.deeper, fill' s'.deeper, chain⟩
  have chains : f'.chain = f.chain := rfl
  have called {handler : Handler (Option Value)} (h : handler.Discreet) :
      Frame.CalledAlike (Comparison.timely s) f f' handler :=
    Frame.called_akin akin chains rfl token fills h
  have frames : Frame.Matched (Comparison.timely s) f f' := {
    registry := akin.registry ▸ .refl _
    chain := rfl
    passed? := Frame.passed?_timely rfl token
    calls := discreet.imp (fun _ h ↦ called h) fun _ h ↦ called h }
  have resolved : Alike (World.BothTimely s) Eq (env.resolveInline fill s chain)
      (env'.resolveInline fill' s' chain) := resolveInline_matched frames
  have limits : env'.context.timeLimit = env.context.timeLimit :=
    congrArg TimeLimit.ofSeconds akin.context.timeout
  have timed : Alike (World.BothTimely s) Eq (env.resolveTimed fill s chain)
      (env'.resolveTimed fill' s' chain) := by
    by_cases limit : env.context.timeLimit = .unrepresentable
    · unfold resolveTimed
      rw [limits, limit]
      exact .throw _
    · rw [resolveTimed_eq limit, inline, resolveTimed_eq (limits ▸ limit), inline']
      exact resolved
  exact timed.marked s.depth s'.depth timely_emit

/-- As long as there is time left and no job begins, a text is filled with the same for callers that
are akin, whatever the world, and however many resolutions are under way. -/
theorem fillWithin_akin (akin : env.Akin env')
    (discreet : env.registry.Satisfies Handler.Discreet Handler.Discreet) (levels : Nat)
    (token : s'.token = s.token) (inline : env.jobLimit? s = none)
    (inline' : env'.jobLimit? s' = none) (text : String) :
    Alike (World.BothTimely s) Eq (env.fillWithin levels s text)
      (env'.fillWithin levels s' text) := by
  induction levels generalizing s s' text with
  | zero => exact .throw _
  | succ levels ih =>
    have fills (text : String) : Alike (World.BothTimely s) Eq
        (env.fillWithin levels s.deeper text) (env'.fillWithin levels s'.deeper text) := by
      have tokens : s'.deeper.token = s.deeper.token := token
      rw [← World.bothTimely_deeper]
      exact ih tokens (env.jobLimit?_of_nested (Nat.succ_pos _))
        (env'.jobLimit?_of_nested (Nat.succ_pos _)) text
    have reports := reportsAlike_timely s env env'
    refine fillText_compared reports text (fun _ ↦ True)
      (fun next ↦ timely_parse fun shared shared' same ↦ next shared shared' same trivial)
      fun _ _ tag _ ↦ ?_
    exact readTag_compared reports (resolve_akin akin discreet token inline inline' fills tag.chain)
      fun other _ ↦ ih token inline inline' other

/-- With the core, what a text inside a resolution is filled with does not depend on the world, as
long as there is time left. -/
theorem fillWithin_timely (core : env.registry = .core) (levels : Nat) (nested : 0 < s.depth)
    (text : String) :
    Alike (World.BothTimely s) Eq (env.fillWithin levels s text) (env.fillWithin levels s text) :=
  fillWithin_akin (.refl env) (core ▸ Registry.core_discreet) levels rfl
    (env.jobLimit?_of_nested nested) (env.jobLimit?_of_nested nested) text

end Env

/-- A segment without its fallback, which resolving does not look at. -/
def Segment.bare (s : Segment) : Segment := { s with fallback := none }

/-- Segments that differ only in what is written around them have one key. -/
theorem Segment.key_eq {s s' : Segment} (h : s.bare = s'.bare) : s.key = s'.key :=
  show s.bare.key = s'.bare.key by rw [h]

private theorem Segment.param_eq {s s' : Segment} (h : s.bare = s'.bare) : s.param = s'.param :=
  show s.bare.param = s'.bare.param by rw [h]

/-- The segments of a chain without the alternative. -/
def Chain.bare (c : Chain) : List Segment := c.segments.map Segment.bare

namespace Frame

/-- The same circumstances with another chain. -/
def on (f : Frame) (c : Chain) : Frame := { f with chain := c }

/-- Whether what texts are filled with does not depend on the world, as long as there is time
left. -/
def FillsTimely (f : Frame) : Prop :=
  ∀ text, Alike (World.BothTimely f.scope) Eq (f.fill text) (f.fill text)

/-- What comes of applying a segment at two places: the same value, or a halt at each place. -/
inductive Applied (p p' : Progress) :
    Except Halt Value × Progress → Except Halt Value × Progress → Prop
  | ok (v : Value) : Applied p p' (.ok v, p) (.ok v, p')
  | error {h h' : Halt} {q q' : Progress} (index : h.index = p.fulfilled)
    (last : h.lastValid = p.lastValid) (index' : h'.index = p'.fulfilled)
    (last' : h'.lastValid = p'.lastValid) : Applied p p' (.error h, q) (.error h', q')

section

variable {f : Frame} {α : Type} {c c' : Chain} {p p' : Progress}

private theorem passed?_on :
    Alike (World.BothTimely f.scope) Eq (f.on c).passed? (f.on c').passed? :=
  passed?_timely rfl rfl

/-- Parameters that are the same are filled alike in time. -/
theorem param_timely (fills : f.FillsTimely) {offset : Nat}
    (can : p.canCount offset c.length) (can' : p'.canCount offset c'.length)
    (same : ((f.on c).cursor p).param? offset = ((f.on c').cursor p').param? offset) :
    Alike (World.BothTimely f.scope) Eq ((f.on c).param p offset) ((f.on c').param p' offset) := by
  refine passed?_on.bind_eq fun passed ↦ ?_
  cases passed with
  | some _ => exact .pure rfl
  | none =>
    dsimp only
    rw [counting_of_canCount can, counting_of_canCount can', same]
    cases ((f.on c').cursor p').param? offset with
    | none => exact .pure rfl
    | some raw => exact (fills raw).bind_eq fun _ ↦ .pure rfl

/-- The host answers alike in time. -/
theorem askHost_timely (l : Lookup) :
    Alike (World.BothTimely f.scope) Eq ((f.on c).askHost l) ((f.on c').askHost l) :=
  (timely_emit _ _).bind_eq fun _ ↦ .pure rfl

/-- A handler that looks at the present segment alone leaves the progress as it is. -/
theorem run_timely (fills : f.FillsTimely) {h : Handler α} (local' : h.Local)
    (key : ((f.on c).cursor p).key? 0 = ((f.on c').cursor p').key? 0)
    (param : ((f.on c).cursor p).param? 0 = ((f.on c').cursor p').param? 0) :
    Alike (World.BothTimely f.scope) (fun x y ↦ x = (y.1, p) ∧ y.2 = p') ((f.on c).run h p)
      ((f.on c').run h p') := by
  induction h with
  | done a => exact .pure ⟨rfl, rfl⟩
  | fault message => exact .throw _
  | ask query next ih =>
    cases query with
    | cursor =>
      change Alike _ _ ((f.on c).run (next ((f.on c).cursor p)) p)
        ((f.on c').run (next ((f.on c').cursor p')) p')
      rw [local'.1 _ _ key param]
      exact ih _ (local'.2 _)
    | param offset =>
      obtain ⟨rfl, rest⟩ := local'
      refine Alike.bind (V := fun x y ↦ x = (y.1, p) ∧ y.2 = p') ?_ ?_
      · exact (param_timely fills (p.canCount_zero _) (p'.canCount_zero _) param).bind_eq fun _ ↦
          .pure ⟨rfl, rfl⟩
      · rintro _ ⟨v, _⟩ ⟨rfl, rfl⟩
        exact ih v (rest v)
    | host lookup =>
      refine Alike.bind (V := fun x y ↦ x = (y.1, p) ∧ y.2 = p') ?_ ?_
      · exact (askHost_timely lookup).bind_eq fun _ ↦ .pure ⟨rfl, rfl⟩
      · rintro _ ⟨answer, _⟩ ⟨rfl, rfl⟩
        exact ih answer (local' answer)
    | context => exact ih _ (local'.2 _)
    | _ => exact local'.elim

/-- A handler that runs alike in time is called alike. -/
theorem call_timely (callee callee' : Callee) {h : Handler (Option Value)}
    {V : Option Value × Progress → Option Value × Progress → Prop}
    (run : Alike (World.BothTimely f.scope) V ((f.on c).run h p) ((f.on c').run h p')) :
    Alike (World.BothTimely f.scope) V ((f.on c).call callee h p)
      ((f.on c').call callee' h p') := by
  refine (timely_emit _ _).bind_eq fun _ ↦ run.bind fun x y value ↦ ?_
  exact passed?_on.bind_eq fun _ ↦ (timely_emit _ _).bind_eq fun _ ↦ .pure value

private theorem apply_timely (fills : f.FillsTimely) (callee : Callee) {attr : Attr} {v : Value}
    (local' : (attr.handler v).Local) (kind : Kind)
    (key : ((f.on c).cursor p).key? 0 = ((f.on c').cursor p').key? 0)
    (param : ((f.on c).cursor p).param? 0 = ((f.on c').cursor p').param? 0) :
    Alike (World.BothTimely f.scope) (Applied p p') ((f.on c).apply callee attr v kind p)
      ((f.on c').apply callee attr v kind p') := by
  have hasParam : ((f.on c).cursor p).hasParam 0 = ((f.on c').cursor p').hasParam 0 :=
    congrArg Option.isSome param
  unfold Frame.apply
  rw [hasParam]
  split
  · exact .pure (.error rfl rfl rfl rfl)
  · refine (call_timely callee callee (run_timely fills local' key param)).bind ?_
    rintro _ ⟨result, _⟩ ⟨rfl, rfl⟩
    cases result with
    | some next => exact .pure (.ok next)
    | none => exact .pure (.error rfl rfl rfl rfl)

private theorem applyShared_timely (fills : f.FillsTimely)
    {onBase : Handler (Option Value) → Prop} (core : f.env.registry.Satisfies onBase Handler.Local)
    (v : Value) {s s' : Segment} (same : s.bare = s'.bare)
    (key : ((f.on c).cursor p).key? 0 = ((f.on c').cursor p').key? 0)
    (param : ((f.on c).cursor p).param? 0 = ((f.on c').cursor p').param? 0) :
    Alike (World.BothTimely f.scope) (Applied p p') ((f.on c).applyShared v s p)
      ((f.on c').applyShared v s' p') := by
  have keys : s.key = s'.key := Segment.key_eq same
  have env : (f.on c').env = (f.on c).env := rfl
  unfold applyShared
  rw [keys, env]
  split
  · next found => exact apply_timely fills _ (core.universal found v) _ key param
  · split
    · next found =>
      split at found
      · contradiction
      · exact apply_timely fills _ (core.attr found _) _ key param
    · exact .pure (.error rfl rfl rfl rfl)

/-- Segments that look the same do the same to a value, wherever they stand. -/
theorem dispatch_timely (fills : f.FillsTimely)
    {onBase : Handler (Option Value) → Prop} (core : f.env.registry.Satisfies onBase Handler.Local)
    (v : Value) {s s' : Segment} (present : ((f.on c).cursor p).segment? 0 = some s)
    (present' : ((f.on c').cursor p').segment? 0 = some s') (same : s.bare = s'.bare) :
    Alike (World.BothTimely f.scope) (Applied p p') ((f.on c).dispatch v p)
      ((f.on c').dispatch v p') := by
  have keys : s.key = s'.key := Segment.key_eq same
  have key : ((f.on c).cursor p).key? 0 = ((f.on c').cursor p').key? 0 := by
    rw [Cursor.key?, Cursor.key?, present, present', Option.map_some, Option.map_some, keys]
  have param : ((f.on c).cursor p).param? 0 = ((f.on c').cursor p').param? 0 := by
    rw [Cursor.param?, Cursor.param?, present, present', Option.bind_some, Option.bind_some]
    exact Segment.param_eq same
  have env : (f.on c').env = (f.on c).env := rfl
  unfold dispatch tryFallback
  rw [present, present', env]
  dsimp only
  rw [keys]
  split
  · next found => exact apply_timely fills _ (core.attr found v) _ key param
  · have shared := applyShared_timely fills core v same key param
    refine Alike.bind (V := fun x y ↦ x = (y.1, p) ∧ y.2 = p') ?_ ?_
    · split
      · next found => exact call_timely _ _ (run_timely fills (core.fallback found v) key param)
      · exact .pure ⟨rfl, rfl⟩
    · rintro _ ⟨result, _⟩ ⟨rfl, rfl⟩
      cases result with
      | some next => exact .pure (.ok next)
      | none => exact shared

end

end Frame

end TextTags
