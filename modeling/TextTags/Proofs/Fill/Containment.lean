import TextTags.Proofs.Fill.Breakdown
import TextTags.Proofs.Fill.Opening
import TextTags.Proofs.Fill.Thread
import TextTags.Proofs.Fill.WellFormed

/-!
# Breakdowns are contained

Whatever handlers break down, at whatever depth, filling a text ends in no breakdown where the time
limit can be represented. A chain one of whose own handlers breaks down is halted at its root with
the message, unless it is a job whose limit has passed by then. What stands in for its tag is what
the handlers around it see, and the threads are left as they were.
-/

namespace TextTags

namespace Frame

variable {f : Frame} {p : Progress} {w u : World}

/-- A parameter that is filled is what the handler goes on with. -/
theorem run_param {α : Type} {offset : Nat} {raw : String} {v : Value}
    (next : Option Value → Handler α) (h : (f.cursor p).param? offset = some raw)
    (early : f.scope.passed? w.clock = none) (filled : f.fill raw w = .ok v u) :
    f.run (.ask (.param offset) next) p w = f.run (next (some v)) p u := by
  have looked : f.passed? w = .ok none w := congrArg (EStateM.Result.ok · w) early
  have param : f.param p offset w = .ok (some v) u := by
    rw [Frame.param, Run.bind_of_ok looked]
    dsimp only
    rw [counting_of_param h, h]
    exact (Run.bind_of_ok filled).trans rfl
  have answered : f.answer p (.param offset) w = .ok (some v, p) u :=
    (Run.bind_of_ok param).trans rfl
  exact Run.bind_of_ok answered

end Frame

namespace Env

open Run

variable {env : Env} {fill : Scope → String → Run Value} {s : Scope} {chain : Chain} {w u : World}
  {message : String}

/-- Whether one of a chain's own handlers breaks down with a message when the chain is resolved. -/
def BreaksDown (env : Env) (fill : Scope → String → Run Value) (s : Scope) (chain : Chain)
    (w : World) (message : String) : Prop :=
  let scope := (env.opening s w).1.deeper
  Frame.BreaksDown ⟨env, scope, fill scope, chain⟩ (env.opening s w).2 message

/-- The laws of a filling that contains breakdowns. -/
structure Contains (env : Env) (levels : Nat) : Prop where
  /-- A text is given, or texts are nested too deep for that. -/
  ends : ∀ text w, (∃ filled u, env.fillString levels text w = .ok filled u) ∨
    ∃ u, env.fillString levels text w = .error .exhausted u
  /-- Where handlers fill nothing but parameters, a text is given. -/
  gives : env.registry.AsksOnly (!·.fillsText) → ∀ text w, text.length < levels → w.cache.Faithful →
    ∃ filled u, env.fillString levels text w = .ok filled u
  /-- A breakdown of a chain's own handler halts the chain at its root: with the message, or with
  the limit of the job that the chain was resolved in if that has passed by then. The tag's
  alternative or the tag as written stands in for it. -/
  tag : ∀ s (tag : Tag) w message, env.BreaksDown (env.fillWithin levels) s tag.chain w message →
    ∃ u, env.resolve (env.fillWithin levels) s tag.chain w =
        .ok (env.settled s tag.chain w.clock u.clock
          (.halted (Halt.atRoot tag.chain (.workerFault message)))) u ∧
      (env.readTag (env.fillWithin levels) s tag).result w =
        match tag.chain.alternative with
        | some alternative => (env.fillWithin levels s alternative).result u
        | none => .ok (.element ("<" ++ tag.raw ++ ">"))
  /-- No other chain is halted by a breakdown. -/
  only : ∀ s chain w message halt u,
    env.resolve (env.fillWithin levels) s chain w = .ok (.halted halt) u →
      halt.failure = .workerFault message →
        env.BreaksDown (env.fillWithin levels) s chain w message
  /-- A handler whose parameter is a tag that breaks down goes on with what stands in for it, in the
  world in which reading the tag ends. The alternative is filled in the world in which the chain is
  halted. -/
  parameter : ∀ s (chain : Chain) (p : Progress) offset raw (tag : Tag) w message
    (next : Option Value → Handler (Option Value)),
    ({ p with chain } : Cursor).param? offset = some raw →
    (Parsed.ofText raw).single? = some tag → w.cache.Faithful → s.passed? w.clock = none →
    env.BreaksDown (env.fillWithin levels) s tag.chain ((Run.parse raw).last w) message →
      let f : Frame := ⟨env, s, env.fillWithin (levels + 1) s, chain⟩
      let parsed := (Run.parse raw).last w
      let halted := (env.resolve (env.fillWithin levels) s tag.chain).last parsed
      let read := (env.readTag (env.fillWithin levels) s tag).last parsed
      match tag.chain.alternative with
      | some alternative => ∀ v u, env.fillWithin levels s alternative halted = .ok v u →
        f.run (.ask (.param offset) next) p w = f.run (next (some v)) p read
      | none => f.run (.ask (.param offset) next) p w =
        f.run (next (some (.element ("<" ++ tag.raw ++ ">")))) p read
  /-- On a thread a text is filled as in the scope that the thread keeps, and the depth and the
  token that the threads keep are in the end what they were. -/
  threads : ∀ text (t : Threads), t.Settled →
    Threaded.fillWithin env levels text t =
        Threaded.here (fun s ↦ env.fillWithin levels s text) t ∧
      ((Threaded.fillWithin env levels text).last t).own = t.own ∧
      ((Threaded.fillWithin env levels text).last t).other = t.other

private theorem resolve_of_breaksDown (limit : env.context.timeLimit ≠ .unrepresentable)
    (fills : ∀ s text, (fill s text).Faultless) (h : env.BreaksDown fill s chain w message) :
    ∃ u, env.resolve fill s chain w =
      .ok (env.settled s chain w.clock u.clock
        (.halted (Halt.atRoot chain (.workerFault message)))) u := by
  obtain ⟨u, ends⟩ := (Frame.runChain_eq_fault_iff (fills _) _).2 h
  have inline : env.resolveInline fill (env.opening s w).1 chain (env.opening s w).2 =
      .ok (.halted (Halt.atRoot chain (.workerFault message))) u := by
    rw [resolveInline, Run.contain, ends]
  obtain ⟨u', resolved, -⟩ := resolve_of_ok limit inline
  exact ⟨u', resolved⟩

/-- What a breakdown is settled for is a halt all the same. -/
theorem settled_halted (env : Env) (s : Scope) (chain : Chain) (start stop : Nat) (halt : Halt) :
    ∃ halt', env.settled s chain start stop (.halted halt) = .halted halt' := by
  unfold settled
  split
  · split <;> exact ⟨_, rfl⟩
  · exact ⟨_, rfl⟩

private theorem breaksDown_of_resolve (limit : env.context.timeLimit ≠ .unrepresentable)
    (fills : ∀ s text, (fill s text).Faultless) {halt : Halt}
    (h : env.resolve fill s chain w = .ok (.halted halt) u)
    (failure : halt.failure = .workerFault message) : env.BreaksDown fill s chain w message := by
  let f : Frame := ⟨env, (env.opening s w).1.deeper, fill (env.opening s w).1.deeper, chain⟩
  have inline : env.resolveInline fill (env.opening s w).1 chain =
      f.runChain.contain fun message ↦ .halted (Halt.atRoot chain (.workerFault message)) := rfl
  -- A limit that has passed is no breakdown, so that the chain was halted before the job ended.
  have kept (outcome : Outcome) (u' : World)
      (ends : env.resolveInline fill (env.opening s w).1 chain (env.opening s w).2 =
        .ok outcome u') : outcome = .halted halt := by
    obtain ⟨w', resolved, -⟩ := resolve_of_ok limit ends
    have eq := (EStateM.Result.ok.inj (resolved.symm.trans h)).1
    unfold settled at eq
    split at eq
    · split at eq
      · cases eq
        contradiction
      · exact eq
    · exact eq
  cases ends : f.runChain (env.opening s w).2 with
  | ok outcome u' =>
    have unbroken := ((f.counts_rise _).2 outcome u' ends).unbroken
    rw [kept outcome u' (contain_of_ok ends)] at unbroken
    exact absurd failure (unbroken message)
  | error stop u' =>
    cases stop with
    | exhausted =>
      have broken : env.resolveInline fill (env.opening s w).1 chain (env.opening s w).2 =
          .error .exhausted u' := by
        rw [inline, Run.contain, ends]
      rw [resolve_of_error limit broken] at h
      contradiction
    | fault first =>
      have contained : env.resolveInline fill (env.opening s w).1 chain (env.opening s w).2 =
          .ok (.halted (Halt.atRoot chain (.workerFault first))) u' := by
        rw [inline, Run.contain, ends]
      cases kept _ u' contained
      cases failure
      exact (Frame.runChain_eq_fault_iff (fills _) _).1 ⟨u', ends⟩

/-- A tag whose chain is halted gives its alternative, or itself as written. -/
theorem readTag_of_halted {tag : Tag} {halt : Halt}
    (h : env.resolve fill s tag.chain w = .ok (.halted halt) u) :
    (env.readTag fill s tag).result w =
      match tag.chain.alternative with
      | some alternative => (fill s alternative).result u
      | none => .ok (.element ("<" ++ tag.raw ++ ">")) := by
  rw [readTag, result_bind_of_ok h]
  dsimp only
  cases tag.chain.alternative with
  | none =>
    obtain ⟨_, reported⟩ := report_quiet env (Report.events tag.raw halt) u
    exact result_of_ok ((bind_of_ok reported).trans rfl)
  | some alternative =>
    dsimp only
    cases filled : fill s alternative u with
    | ok v u' =>
      obtain ⟨_, reported⟩ := reportFill_quiet env tag v u'
      rw [result_of_ok filled]
      exact result_of_ok ((bind_of_ok filled).trans ((bind_of_ok reported).trans rfl))
    | error stop u' =>
      rw [result_of_error filled]
      exact result_bind_of_error filled

/-- A text that is one tag is filled by reading the tag. -/
theorem fillText_of_tag {text : String} {tag : Tag} (h : (Parsed.ofText text).single? = some tag)
    (faithful : w.cache.Faithful) :
    env.fillText fill s text w = env.readTag fill s tag ((Run.parse text).last w) := by
  have hne' : text ≠ "" := by
    rintro rfl
    contradiction
  have parsed : Run.parse text w =
      .ok (w.cache.getOrParse text).1 ((Run.parse text).last w) := rfl
  rw [fillText, if_neg hne', bind_of_ok parsed, Cache.parsed_getOrParse faithful text, h]

private theorem contains_parameter (limit : env.context.timeLimit ≠ .unrepresentable) {levels : Nat}
    {p : Progress} {offset : Nat} {raw : String} {tag : Tag}
    (next : Option Value → Handler (Option Value))
    (param : ({ p with chain } : Cursor).param? offset = some raw)
    (single : (Parsed.ofText raw).single? = some tag) (faithful : w.cache.Faithful)
    (early : s.passed? w.clock = none)
    (breaks : env.BreaksDown (env.fillWithin levels) s tag.chain ((Run.parse raw).last w) message) :
    let f : Frame := ⟨env, s, env.fillWithin (levels + 1) s, chain⟩
    let parsed := (Run.parse raw).last w
    let halted := (env.resolve (env.fillWithin levels) s tag.chain).last parsed
    let read := (env.readTag (env.fillWithin levels) s tag).last parsed
    match tag.chain.alternative with
    | some alternative => ∀ v u, env.fillWithin levels s alternative halted = .ok v u →
      f.run (.ask (.param offset) next) p w = f.run (next (some v)) p read
    | none => f.run (.ask (.param offset) next) p w =
      f.run (next (some (.element ("<" ++ tag.raw ++ ">")))) p read := by
  intro f parsed halted read
  obtain ⟨u, resolved⟩ := resolve_of_breaksDown limit (fillWithin_faultless limit levels) breaks
  have seen {v : Value}
      (given : (env.readTag (env.fillWithin levels) s tag).result parsed = .ok v) :
      f.run (.ask (.param offset) next) p w = f.run (next (some v)) p read := by
    obtain ⟨u, ends⟩ := eq_ok_of_result given
    have filled : f.fill raw w = .ok v u := (fillText_of_tag single faithful).trans ends
    exact (f.run_param next param early filled).trans (congrArg _ (last_of_ok ends).symm)
  obtain ⟨halt, settled⟩ := settled_halted env s tag.chain parsed.clock u.clock
    (Halt.atRoot tag.chain (.workerFault message))
  rw [settled] at resolved
  have given := readTag_of_halted resolved
  have last : halted = u := last_of_ok resolved
  cases alternative : tag.chain.alternative with
  | none =>
    rw [alternative] at given
    exact seen given
  | some text =>
    rw [alternative, ← last] at given
    exact fun v u' filled ↦ seen (given.trans (result_of_ok filled))

/-- Where the time limit can be represented, breakdowns are contained, whatever the registry. -/
theorem contains (limit : env.context.timeLimit ≠ .unrepresentable) (levels : Nat) :
    env.Contains levels where
  ends text w := by
    cases ends : env.fillString levels text w with
    | ok filled u => exact .inl ⟨filled, u, rfl⟩
    | error stop u =>
      obtain rfl := fillString_faultless limit levels text w stop u ends
      exact .inr ⟨u, rfl⟩
  gives handlers text w enough faithful := by
    obtain ⟨filled, u, ends, -⟩ := fillString_ok limit handlers enough faithful
    exact ⟨filled, u, ends⟩
  tag s tag w message breaks := by
    obtain ⟨u, resolved⟩ := resolve_of_breaksDown limit (fillWithin_faultless limit levels) breaks
    obtain ⟨halt, settled⟩ := settled_halted env s tag.chain w.clock u.clock
      (Halt.atRoot tag.chain (.workerFault message))
    exact ⟨u, resolved, readTag_of_halted (settled ▸ resolved)⟩
  only s chain w message halt u ends failure :=
    breaksDown_of_resolve limit (fillWithin_faultless limit levels) ends failure
  parameter s chain p offset raw tag w message next param single faithful early breaks :=
    contains_parameter limit next param single faithful early breaks
  threads text t settled :=
    have lexical := Threaded.fillWithin_lexical env levels text
    ⟨lexical t settled, lexical.last settled⟩

/-! ## Handlers that break down -/

/-- A base that breaks down, and one that gives its parameter. -/
def brokenEnv (broken : Handler (Option Value)) (timeout : Float) : Env where
  registry := {
    bases := [("boom", ⟨"boom", .element, broken⟩),
      ("echo", ⟨"echo", .element, Handler.Attempt.param 0⟩)] }
  context := { timeout, timeBoxWhenSilent := true }

/-- The tag of the base that breaks down. -/
def brokenTag : Tag where
  raw := "boom"
  chain := { origin := "boom", root := ⟨"boom", "boom", none, none⟩, rest := [] }

/-- The chain of the base that gives its parameter, which is the tag that breaks down. -/
def echoChain : Chain where
  origin := "echo[<boom>]"
  root := ⟨"echo", "echo", some "<boom>", none⟩
  rest := []

/-- The failure at which a resolution halts, if it halts. -/
def failure? : EStateM.Result Stop World Outcome → Option Failure
  | .ok (.halted halt) _ => some halt.failure
  | _ => none

private theorem brokenEnv_breaksDown {broken : Handler (Option Value)}
    (h : ∀ f p w, Frame.breakdown? f broken p w = some message) (timeout : Float)
    (fill : Scope → String → Run Value) (s : Scope) (w : World) :
    (brokenEnv broken timeout).BreaksDown fill s brokenTag.chain w message := by
  have base : (brokenEnv broken timeout).registry.base? brokenTag.chain.root.key =
      some ⟨"boom", .element, broken⟩ := rfl
  refine ⟨⟨.base "boom", broken, {}, ((brokenEnv broken timeout).opening s w).2⟩, ?_, h _ _ _⟩
  unfold Frame.calls Plan.ofChain
  dsimp only
  rw [base]
  dsimp only
  rw [Plan.calls]
  exact List.mem_cons_self

/-- A job that breaks down in time is halted by that, and a handler whose parameter it is goes on
with the tag as written. -/
theorem contains_broken :
    let env := brokenEnv (.fault "boom") 10.0
    env.context.timeLimit ≠ .unrepresentable ∧
      failure? (env.resolve (env.fillWithin 3) {} brokenTag.chain {}) = some (.workerFault "boom") ∧
      (env.readTag (env.fillWithin 3) {} brokenTag).result {} = .ok (.element "<boom>") ∧
      ∃ u, Frame.run ⟨env, {}, env.fillWithin 4 {}, echoChain⟩ (.ask (.param 0) .done) {} {} =
        .ok (some (.element "<boom>"), {}) u := by
  intro env
  have limit : env.context.timeLimit ≠ .unrepresentable := by decide +kernel
  have breaks (w : World) : env.BreaksDown (env.fillWithin 3) {} brokenTag.chain w "boom" :=
    brokenEnv_breaksDown (fun _ _ _ ↦ rfl) 10.0 _ {} w
  have single : (Parsed.ofText "<boom>").single? = some brokenTag := by decide +kernel
  obtain ⟨_, -, read⟩ := (contains limit 3).tag {} brokenTag {} "boom" (breaks {})
  have parameter := (contains limit 3).parameter {} echoChain {} 0 "<boom>" brokenTag {} "boom"
    .done rfl single Cache.faithful_empty rfl (breaks _)
  exact ⟨limit, by decide +kernel, read, _, parameter⟩

/-- A base that has the tag of itself filled. -/
def endlessEnv : Env where
  registry := { bases :=
    [("loop", ⟨"loop", .element, .ask (.fill "<loop>") fun v ↦ .done (some v)⟩)] }

/-- The tag of the base that has it filled. -/
def endlessTag : Tag where
  raw := "loop"
  chain := { origin := "loop", root := ⟨"loop", "loop", none, none⟩, rest := [] }

/-- However deep texts may be nested, the tag is nested deeper. -/
theorem fillWithin_endless (levels : Nat) (s : Scope) {w : World} (faithful : w.cache.Faithful) :
    ∃ u, endlessEnv.fillWithin levels s "<loop>" w = .error .exhausted u := by
  -- Each level fills the text at the next one, until there are no more.
  induction levels generalizing s w with
  | zero => exact ⟨w, rfl⟩
  | succ levels ih =>
    have limit : endlessEnv.context.timeLimit ≠ .unrepresentable := by decide +kernel
    have single : (Parsed.ofText "<loop>").single? = some endlessTag := by decide +kernel
    let scope := (endlessEnv.opening s ((Run.parse "<loop>").last w)).1
    let start := (endlessEnv.opening s ((Run.parse "<loop>").last w)).2
    let f : Frame := ⟨endlessEnv, scope.deeper, endlessEnv.fillWithin levels scope.deeper,
      endlessTag.chain⟩
    let called := (Run.emit (.called (.base "loop"))).last start
    have kept : called.cache.Faithful := by
      change start.cache.Faithful
      rw [cache_opening]
      exact faithful.getOrParse "<loop>"
    obtain ⟨u, deeper⟩ := ih scope.deeper kept
    have answered : f.answer {} (.fill "<loop>") called = .error .exhausted u :=
      bind_of_error deeper
    have ran : f.run (.ask (.fill "<loop>") fun v ↦ .done (some v)) {} called =
        .error .exhausted u := bind_of_error answered
    have emitted : Run.emit (.called (.base "loop")) start = .ok () called := rfl
    have ended : f.runChain start = .error .exhausted u :=
      bind_of_error ((bind_of_ok emitted).trans (bind_of_error ran))
    have inline : endlessEnv.resolveInline (endlessEnv.fillWithin levels) scope endlessTag.chain
        start = .error .exhausted u := by
      rw [resolveInline, Run.contain, ended]
    refine ⟨u, ?_⟩
    rw [fillWithin, fillText_of_tag single faithful]
    exact bind_of_error (resolve_of_error limit inline)

/-- A job that waits until time has run out and then breaks down is given up before it does, so that
not every breakdown is what halts its chain. A handler that has its own tag filled comes to no end,
so that not every text is filled. -/
theorem contains_late :
    (¬ ∀ (env : Env) (levels : Nat) (s : Scope) (chain : Chain) (w : World) (message : String),
      env.context.timeLimit ≠ .unrepresentable →
      env.BreaksDown (env.fillWithin levels) s chain w message →
        failure? (env.resolve (env.fillWithin levels) s chain w) = some (.workerFault message)) ∧
    ¬ ∀ (env : Env) (text : String) (w : World), env.context.timeLimit ≠ .unrepresentable →
      w.cache.Faithful → ∃ levels filled u, env.fillString levels text w = .ok filled u := by
  refine ⟨fun claim ↦ ?_, fun claim ↦ ?_⟩
  · let env := brokenEnv (.ask .awaitCancel fun _ ↦ .fault "boom") 10.0
    have limit : env.context.timeLimit ≠ .unrepresentable := by decide +kernel
    have breaks : env.BreaksDown (env.fillWithin 3) {} brokenTag.chain {} "boom" := by
      refine brokenEnv_breaksDown (fun f p w ↦ ?_) 10.0 _ {} {}
      rw [Frame.breakdown?, Frame.answer, Frame.awaitCancel]
      cases f.scope.token <;> rfl
    have late : failure? (env.resolve (env.fillWithin 3) {} brokenTag.chain {}) =
        some (.timeout ⟨Nat.pow 10 10⟩) := by decide +kernel
    have fault := claim env 3 {} brokenTag.chain {} "boom" limit breaks
    rw [late] at fault
    cases fault
  · have limit : endlessEnv.context.timeLimit ≠ .unrepresentable := by decide +kernel
    have faithful : ({} : World).cache.Faithful := Cache.faithful_empty
    obtain ⟨levels, filled, u, ends⟩ := claim endlessEnv "<loop>" {} limit faithful
    obtain ⟨u', endless⟩ := fillWithin_endless levels {} faithful
    have stops : endlessEnv.fillString levels "<loop>" {} = .error .exhausted u' :=
      bind_of_error endless
    rw [stops] at ends
    cases ends

end Env

end TextTags
