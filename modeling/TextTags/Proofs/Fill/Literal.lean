import TextTags.Proofs.Cache
import TextTags.Proofs.Chain.Nested
import TextTags.Proofs.Fill.Alike
import TextTags.Proofs.Fill.Handlers
import TextTags.Proofs.Registry
import TextTags.Proofs.Value.Identity

/-!
# Tags of one segment

A tag of nothing but a base that makes its value of its parameter gives what is made of the filled
parameter, as long as there is time for it.
-/

namespace TextTags

open Run Text

namespace Run

variable {α β : Type} {clock : Nat}

/-- From every world at a reading of the clock whose cache holds what it should, the computation
gives a value and leaves such a world. -/
def GivesAt (clock : Nat) (x : Run α) (a : α) : Prop :=
  ∀ w, w.cache.Faithful → w.clock = clock →
    ∃ w', x w = .ok a w' ∧ w'.cache.Faithful ∧ w'.clock = clock

/-- A quiet run gives its value at any reading of the clock. -/
theorem Quiet.givesAt {x : Run α} {a : α} (h : Quiet x a) : GivesAt clock x a := by
  intro w faithful reading
  obtain ⟨events, ends⟩ := h w
  exact ⟨_, ends, faithful, reading⟩

namespace GivesAt

/-- A value that is just given takes no time. -/
theorem pure (a : α) : GivesAt clock (pure a) a := (Quiet.pure a).givesAt

/-- An event takes no time. -/
theorem emit (e : Event) : GivesAt clock (emit e) () := (Quiet.emit e).givesAt

/-- Two runs that take no time take none one after the other. -/
theorem bind {x : Run α} {f : α → Run β} {a : α} {b : β} (h : GivesAt clock x a)
    (next : GivesAt clock (f a) b) : GivesAt clock (x >>= f) b := by
  intro w faithful reading
  obtain ⟨w', ends, faithful', reading'⟩ := h w faithful reading
  obtain ⟨last, rest⟩ := next w' faithful' reading'
  exact ⟨last, (bind_of_ok ends).trans rest.1, rest.2⟩

private theorem get_bind {f : World → Run β} {b : β}
    (next : ∀ w : World, w.clock = clock → GivesAt clock (f w) b) :
    GivesAt clock (get >>= f) b := fun w faithful reading ↦ next w reading w faithful reading

/-- Parsing takes no time, and what follows may rely on the parse. -/
theorem parse_bind {text : String} {f : Shared → Run β} {b : β}
    (next : ∀ shared : Shared, shared.parsed = Parsed.ofText text → GivesAt clock (f shared) b) :
    GivesAt clock (Run.parse text >>= f) b := fun _ faithful reading ↦
  next _ (Cache.parsed_getOrParse faithful text) _ (faithful.getOrParse text) reading

private theorem contain {x : Run α} {a : α} (h : GivesAt clock x a) (recover : String → α) :
    GivesAt clock (x.contain recover) a := by
  intro w faithful reading
  obtain ⟨w', ends, rest⟩ := h w faithful reading
  exact ⟨w', contain_of_ok ends, rest⟩

/-- From a faithful cache a run gives what it gives at its reading of the clock. -/
theorem result_eq {x : Run α} {a : α} {w : World} (h : GivesAt w.clock x a)
    (faithful : w.cache.Faithful) : x.result w = .ok a := by
  obtain ⟨w', ends, -⟩ := h w faithful rfl
  exact result_of_ok ends

end GivesAt

end Run

/-- What makes a value of the filled parameter. -/
def Handler.ofParam (make : Value → Attempt Value) : Attempt Value := do
  make (← Attempt.param 0)

/-- A chain of nothing but a base that makes its value of its parameter. -/
structure Chain.IsSingle (r : Registry) (make : Value → Handler.Attempt Value) (raw : String)
    (c : Chain) : Prop where
  base : ∃ name returns, r.base? c.root.key = some ⟨name, returns, Handler.ofParam make⟩
  param : c.root.param = some raw
  single : c.rest = []
  final : c.root.fallback = none

private theorem Chain.IsSingle.alternative {r : Registry} {make : Value → Handler.Attempt Value}
    {raw : String} {c : Chain} (h : c.IsSingle r make raw) : c.alternative = none := by
  simp [Chain.alternative, last, h.single, h.final]

namespace Frame

variable {α β : Type} {f : Frame} {clock : Nat} {make : Value → Handler.Attempt Value}
    {raw : String}
  {filled v : Value} {limit : Limit}

private theorem passed?_givesAt (f : Frame) (clock : Nat) :
    GivesAt clock f.passed? (f.scope.passed? clock) :=
  GivesAt.get_bind fun _ reading ↦ reading ▸ GivesAt.pure _

/-- A call gives what the handler gives. -/
theorem call_givesAt {callee : Callee} {handler : Handler (Option Value)} {p : Progress}
    {result : Option Value × Progress} (h : GivesAt clock (f.run handler p) result) :
    GivesAt clock (f.call callee handler p) result :=
  (GivesAt.emit _).bind <| h.bind <| (f.passed?_givesAt clock).bind <|
    (GivesAt.emit _).bind (GivesAt.pure _)

/-- The parameter at a place is what filling it gives. -/
theorem param_givesAt {p : Progress} {offset : Nat} (time : f.scope.passed? clock = none)
    (param : (f.cursor p).param? offset = some raw) (fill : GivesAt clock (f.fill raw) filled) :
    GivesAt clock (f.param p offset) (some filled) := by
  apply (f.passed?_givesAt clock).bind
  rw [time]
  dsimp only
  rw [counting_of_param param, param]
  exact fill.bind (GivesAt.pure _)

/-- An attempt that gives a value goes on with it. -/
theorem attempt_givesAt {x : Handler.Attempt α} {g : α → Handler.Attempt β} {p q : Progress} {a : α}
    {last : Option β × Progress} (first : GivesAt clock (f.run x p) (some a, q))
    (next : GivesAt clock (f.run (g a) q) last) :
    GivesAt clock (f.run (Bind.bind (m := Handler.Attempt) x g) p) last := by
  rw [run_attempt]
  exact first.bind next

private theorem attemptParam_givesAt {p : Progress} {offset : Nat}
    (time : f.scope.passed? clock = none)
    (param : (f.cursor p).param? offset = some raw) (fill : GivesAt clock (f.fill raw) filled) :
    GivesAt clock (f.run (Handler.Attempt.param offset) p) (some filled, p) := by
  rw [run_attemptParam]
  exact (param_givesAt time param fill).bind (GivesAt.pure _)

/-- The parameter at a place as text is the identity of what filling it gives. -/
theorem paramText_givesAt {p : Progress} {offset : Nat} (time : f.scope.passed? clock = none)
    (param : (f.cursor p).param? offset = some raw) (fill : GivesAt clock (f.fill raw) filled) :
    GivesAt clock (f.run (Handler.Attempt.paramText offset) p) (some filled.asElement, p) :=
  attempt_givesAt (attemptParam_givesAt time param fill) (GivesAt.pure _)

private theorem run_ofParam (time : f.scope.passed? clock = none)
    (param : (f.cursor {}).param? 0 = some raw) (fill : GivesAt clock (f.fill raw) filled)
    (made : GivesAt clock (f.run (make filled) {}) (some v, {})) :
    GivesAt clock (f.run (Handler.ofParam make) {}) (some v, {}) :=
  attempt_givesAt (attemptParam_givesAt time param fill) made

/-- Once time has run out, nothing is made of a parameter. -/
theorem run_ofParam_late (late : f.scope.passed? clock = some limit) :
    GivesAt clock (f.run (Handler.ofParam make) {}) (none, {}) := by
  have given : GivesAt clock (f.param {} 0) none := by
    apply (f.passed?_givesAt clock).bind
    rw [late]
    exact GivesAt.pure _
  have asked : GivesAt clock (f.run (Handler.Attempt.param 0) {}) (none, {}) := by
    rw [run_attemptParam]
    exact given.bind (GivesAt.pure _)
  rw [Handler.ofParam, run_attempt]
  exact asked.bind (GivesAt.pure _)

/-- The chain of a base that makes a value of its parameter is fulfilled. -/
theorem runChain_root
    (known : ∃ name returns,
      f.env.registry.base? f.chain.root.key = some ⟨name, returns, Handler.ofParam make⟩)
    (param : f.chain.root.param = some raw) (single : f.chain.rest = [])
    (time : f.scope.passed? clock = none) (fill : GivesAt clock (f.fill raw) filled)
    (made : GivesAt clock (f.run (make filled) {}) (some v, {})) :
    GivesAt clock f.runChain (.fulfilled v 1) := by
  obtain ⟨name, returns, base⟩ := known
  have first : (f.cursor {}).param? 0 = some raw := by
    simp [cursor, Cursor.param?, Cursor.segment?, Chain.segments, param]
  have length : f.chain.length = 1 := by simp [Chain.length, Chain.segments, single]
  unfold runChain
  dsimp only
  rw [base, length]
  apply (call_givesAt (run_ofParam time first fill made)).bind
  apply (f.passed?_givesAt clock).bind
  rw [time]
  simp only [walk, length, Progress.advance, Progress.fulfill]
  exact GivesAt.pure _

private theorem runChain_single (single : f.chain.IsSingle f.env.registry make raw)
    (time : f.scope.passed? clock = none) (fill : GivesAt clock (f.fill raw) filled)
    (made : GivesAt clock (f.run (make filled) {}) (some v, {})) :
    GivesAt clock f.runChain (.fulfilled v 1) :=
  runChain_root single.base single.param single.single time fill made

/-- Once time has run out, it is halted. -/
theorem runChain_single_late (single : f.chain.IsSingle f.env.registry make raw)
    (late : f.scope.passed? clock = some limit) :
    GivesAt clock f.runChain (.halted (({} : Progress).halt f.chain (.timeout limit) [])) := by
  obtain ⟨name, returns, base⟩ := single.base
  unfold runChain
  dsimp only
  rw [base]
  apply (call_givesAt (run_ofParam_late late)).bind
  apply (f.passed?_givesAt clock).bind
  rw [late]
  exact GivesAt.pure _

end Frame

namespace Env

variable {env : Env} {fill : Scope → String → Run Value} {clock : Nat}
  {make : Value → Handler.Attempt Value} {raw : String} {filled v : Value} {chain : Chain}
  {tag : Tag}

/-- What is made of a value wherever chains are resolved. -/
def Makes (env : Env) (clock : Nat) (made : Handler.Attempt Value) (v : Value) : Prop :=
  ∀ f : Frame, f.env = env → GivesAt clock (f.run made {}) (some v, {})

private theorem resolveInline_single (single : chain.IsSingle env.registry make raw)
    (fills : ∀ s, GivesAt clock (fill s raw) filled) (made : env.Makes clock (make filled) v)
    {s : Scope} (time : s.passed? clock = none) :
    GivesAt clock (env.resolveInline fill s chain) (.fulfilled v 1) :=
  (Frame.runChain_single single time (fills _) (made _ rfl)).contain _

private theorem resolveInline_single_late (single : chain.IsSingle env.registry make raw)
    {s : Scope} {limit : Limit} (late : s.passed? clock = some limit) :
    GivesAt clock (env.resolveInline fill s chain)
      (.halted (({} : Progress).halt chain (.timeout limit) [])) :=
  (Frame.runChain_single_late single late).contain _

private theorem passed?_ofJob (limit : Limit) (clock : Nat) :
    (Scope.ofJob limit clock).passed? clock = if limit.nanos = 0 then some limit else none := by
  simp [Scope.passed?, Scope.ofJob]

private theorem resolveGuarded_single (single : chain.IsSingle env.registry make raw)
    (fills : ∀ s, GivesAt clock (fill s raw) filled) (made : env.Makes clock (make filled) v)
    {limit : Limit} (time : limit.nanos ≠ 0) :
    GivesAt clock (env.resolveGuarded fill limit chain) (.fulfilled v 1) := by
  have open' : (Scope.ofJob limit clock).passed? clock = none := by
    rw [passed?_ofJob, if_neg time]
  refine GivesAt.get_bind fun w reading ↦ ?_
  rw [reading]
  refine (GivesAt.emit _).bind ((resolveInline_single single fills made open').bind ?_)
  refine (GivesAt.emit _).bind (GivesAt.get_bind fun w reading ↦ ?_)
  rw [reading, open']
  exact GivesAt.pure _

private theorem resolveGuarded_single_late (single : chain.IsSingle env.registry make raw)
    {limit : Limit} (hno : limit.nanos = 0) :
    GivesAt clock (env.resolveGuarded fill limit chain)
      (.halted (Halt.atRoot chain (.timeout limit))) := by
  have late : (Scope.ofJob limit clock).passed? clock = some limit := by
    rw [passed?_ofJob, if_pos hno]
  refine GivesAt.get_bind fun w reading ↦ ?_
  rw [reading]
  refine (GivesAt.emit _).bind ((resolveInline_single_late single late).bind ?_)
  refine (GivesAt.emit _).bind (GivesAt.get_bind fun w reading ↦ ?_)
  rw [reading, late]
  exact GivesAt.pure _

/-- The marks at the two ends of a resolution do not change what it gives. -/
theorem resolve_givesAt {s : Scope} {outcome : Outcome}
    (h : GivesAt clock (env.resolveTimed fill s chain) outcome) :
    GivesAt clock (env.resolve fill s chain) outcome := by
  refine GivesAt.get_bind fun w _ ↦ (GivesAt.emit _).bind (h.bind ?_)
  exact GivesAt.get_bind fun w' _ ↦ (GivesAt.emit _).bind (GivesAt.pure _)

/-- What filling comes to where handlers take no time: the value, unless the time limit is too large
to be kept or is over before anything begins. -/
def atOnce (env : Env) (text : String) (v : Value) : Except Stop Value :=
  match env.context.timeLimit with
  | .unlimited => .ok v
  | .within limit =>
    .ok (if env.host.timeBoxes env.context ∧ limit.nanos = 0 then .element text else v)
  | .unrepresentable => .error (.fault timeLimitFault)

/-- Within a time limit that can be represented and, in a job, is not over before anything
begins. -/
theorem atOnce_eq (limit : env.context.timeLimit ≠ .unrepresentable)
    (inTime : ∀ limit, env.context.timeLimit = .within limit → env.host.timeBoxes env.context →
      limit.nanos ≠ 0) (text : String) (v : Value) : env.atOnce text v = .ok v := by
  unfold atOnce
  cases limits : env.context.timeLimit with
  | unlimited => rfl
  | within span =>
    dsimp only
    rw [if_neg fun passed ↦ inTime span limits passed.1 passed.2]
  | unrepresentable => contradiction

/-- A tag of a base that makes a value of its parameter gives what is made of the filled one. -/
theorem readTag_single (single : tag.chain.IsSingle env.registry make raw) {w : World}
    (faithful : w.cache.Faithful) (fills : ∀ s, GivesAt w.clock (fill s raw) filled)
    (made : env.Makes w.clock (make filled) v) :
    (env.readTag fill {} tag).result w = env.atOnce ("<" ++ tag.raw ++ ">") v := by
  have ends (outcome : Outcome) (h : GivesAt w.clock (env.resolveTimed fill {} tag.chain) outcome) :
      (env.readTag fill {} tag).result w = .ok (match outcome with
        | .fulfilled v _ => v
        | .halted _ => .element ("<" ++ tag.raw ++ ">")) := by
    refine GivesAt.result_eq ((resolve_givesAt h).bind ?_) faithful
    cases outcome with
    | fulfilled v _ => exact (env.reportFill_quiet tag v).givesAt.bind (GivesAt.pure _)
    | halted halt =>
      rw [single.alternative]
      exact (env.report_quiet _).givesAt.bind (GivesAt.pure _)
  have inline : GivesAt w.clock (env.resolveInline fill {} tag.chain) (.fulfilled v 1) :=
    resolveInline_single single fills made rfl
  unfold atOnce
  cases limits : env.context.timeLimit with
  | unlimited =>
    apply ends (.fulfilled v 1)
    rw [resolveTimed, limits]
    exact inline
  | unrepresentable =>
    have stops : env.resolveTimed fill {} tag.chain = throw (.fault timeLimitFault) := by
      rw [resolveTimed, limits]
    rw [readTag, resolve, stops]
    rfl
  | within limit =>
    dsimp only
    by_cases boxed : env.host.timeBoxes env.context
    · have guarded : env.resolveTimed fill {} tag.chain =
          env.resolveGuarded fill limit tag.chain := by
        simp [resolveTimed, limits, boxed]
      by_cases hno : limit.nanos = 0
      · rw [if_pos ⟨boxed, hno⟩]
        exact ends (.halted _) (guarded ▸ resolveGuarded_single_late single hno)
      · rw [if_neg fun h ↦ hno h.2]
        exact ends (.fulfilled v 1)
          (guarded ▸ resolveGuarded_single single fills made hno)
    · have unguarded : env.resolveTimed fill {} tag.chain =
          env.resolveInline fill {} tag.chain := by
        simp [resolveTimed, limits, boxed]
      rw [if_neg fun h ↦ boxed h.1]
      exact ends (.fulfilled v 1) (unguarded ▸ inline)

end Env

end TextTags
