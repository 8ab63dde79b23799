import TextTags.Proofs.Asks
import TextTags.Proofs.Chain.Parts
import TextTags.Proofs.Fill.Alike

/-!
# Computations compared

A relation on computations that is kept by the ways in which filling puts computations together
holds of two fills as soon as it holds of the answers to what their handlers ask. Texts are filled
by one program, so that it is gone through once, whatever two of its runs are compared for.
-/

namespace TextTags

/-- The events whose form does not depend on where they happen. -/
def Event.isPlain : Event → Bool
  | .error _ => true
  | .debug _ => true
  | .filled _ _ => true
  | .asked _ => true
  | .called _ => true
  | _ => false

/-- A relation on computations that is kept where computations are put together. -/
structure Congruence where
  Rel : {α : Type} → Run α → Run α → Prop
  pure : ∀ {α : Type} (a : α), Rel (Pure.pure a) (Pure.pure a)
  fault : ∀ {α : Type} (message : String),
    Rel (throw (.fault message) : Run α) (throw (.fault message))
  bind : ∀ {α β : Type} {x y : Run α} {f g : α → Run β}, Rel x y → (∀ a, Rel (f a) (g a)) →
    Rel (x >>= f) (y >>= g)
  contain : ∀ {α : Type} {x y : Run α} (recover : String → α), Rel x y →
    Rel (x.contain recover) (y.contain recover)

/-- A relation on computations that the steps of filling keep. -/
structure Comparison extends Congruence where
  emit : ∀ {e : Event}, e.isPlain → Rel (Run.emit e) (Run.emit e)

/-- Events that are alike one by one are so in a row. -/
theorem Congruence.forM (C : Congruence) {events : List Event}
    (each : ∀ e ∈ events, C.Rel (Run.emit e) (Run.emit e)) :
    C.Rel (events.forM Run.emit) (events.forM Run.emit) := by
  induction events with
  | nil => exact C.pure ()
  | cons e rest ih =>
    exact C.bind (each e List.mem_cons_self) fun _ ↦
      ih fun e mem ↦ each e (List.mem_cons_of_mem _ mem)

namespace Comparison

instance : Coe Comparison Congruence := ⟨toCongruence⟩

/-- The comparison of runs from worlds that belong together. -/
def alike (R : World → World → Prop)
    (emit : ∀ e, e.isPlain → Run.Alike R Eq (Run.emit e) (Run.emit e)) : Comparison where
  Rel := Run.Alike R Eq
  pure _ := .pure rfl
  fault message := .throw (.fault message)
  bind := .bind_eq
  contain recover h := h.contain recover
  emit := emit _

end Comparison

private theorem Chain.mem_params {c : Chain} {p : Progress} {offset : Nat} {raw : String}
    (h : Cursor.param? { p with chain := c } offset = some raw) : raw ∈ c.params := by
  obtain ⟨s, found, param⟩ := Option.bind_eq_some_iff.1 h
  exact List.mem_filterMap.2 ⟨s, List.mem_of_getElem? found, param⟩

namespace Frame

variable {α : Type} {C : Comparison} {asks : Query → Prop} {f f' : Frame}

/-- Frames that find the same in their registries, and answer related to each other what the
handlers there ask. -/
structure Compared (C : Comparison) (asks : Query → Prop) (f f' : Frame) : Prop where
  registry : Registry.Agree f.env.registry f'.env.registry
  handlers : f.env.registry.AsksOnly asks
  chain : f'.chain = f.chain
  passed? : C.Rel f.passed? f'.passed?
  answer : ∀ p q, asks q → C.Rel (f.answer p q) (f'.answer p q)
  returned : ∀ callee gave cancelled,
    C.Rel (Run.emit (.returned callee f.scope.depth gave cancelled))
      (Run.emit (.returned callee f'.scope.depth gave cancelled))

private theorem counting_matched {C : Congruence} {ahead : Nat} {p : Progress} {x y : Run α}
    (chain : f'.chain = f.chain) (h : C.Rel x y) :
    C.Rel (f.counting p ahead x) (f'.counting p ahead y) := by
  unfold counting
  rw [chain]
  split
  · exact h
  · exact C.fault _

/-- Plain queries are answered from the chain, the settings, the host, the time that has passed and
the parameters. -/
theorem answer_matched {C : Congruence} (chain : f'.chain = f.chain)
    (context : f'.env.context = f.env.context) (host : f'.env.host.answer = f.env.host.answer)
    (asked : ∀ lookup, C.Rel (Run.emit (.asked lookup)) (Run.emit (.asked lookup)))
    (passed? : C.Rel f.passed? f'.passed?)
    (fill : ∀ raw ∈ f.chain.params, C.Rel (f.fill raw) (f'.fill raw)) (p : Progress) (q : Query)
    (plain : q.isPlain) : C.Rel (f.answer p q) (f'.answer p q) := by
  have cursor : f'.cursor p = f.cursor p := by rw [Frame.cursor, Frame.cursor, chain]
  cases q with
  | cursor =>
    unfold Frame.answer
    rw [cursor]
    exact C.pure _
  | fulfill count =>
    refine counting_matched chain ?_
    rw [chain]
    exact C.pure _
  | seem name => exact C.pure _
  | lackParam => exact C.pure _
  | param offset =>
    refine C.bind (C.bind passed? fun passed ↦ ?_) fun _ ↦ C.pure _
    cases passed with
    | some _ => exact C.pure _
    | none =>
      refine counting_matched chain ?_
      rw [cursor]
      cases found : (f.cursor p).param? offset with
      | none => exact C.pure _
      | some raw => exact C.bind (fill raw (Chain.mem_params found)) fun _ ↦ C.pure _
  | host lookup =>
    unfold Frame.answer askHost
    rw [host]
    exact C.bind (C.bind (asked lookup) fun _ ↦ C.pure _) fun _ ↦ C.pure _
  | context =>
    unfold Frame.answer
    rw [context]
    exact C.pure _
  | cancelled => exact C.bind passed? fun _ ↦ C.pure _
  | fill | depth | elapse | awaitCancel | note => contradiction

/-- Plain queries are answered alike where the parameters of the chain are filled alike. -/
theorem answer_compared (chain : f'.chain = f.chain) (context : f'.env.context = f.env.context)
    (host : f'.env.host.answer = f.env.host.answer) (passed? : C.Rel f.passed? f'.passed?)
    (fill : ∀ raw ∈ f.chain.params, C.Rel (f.fill raw) (f'.fill raw)) (p : Progress) (q : Query)
    (plain : q.isPlain) : C.Rel (f.answer p q) (f'.answer p q) :=
  answer_matched chain context host (fun _ ↦ C.emit rfl) passed? fill p q plain

/-- A handler runs alike where its queries are answered alike. -/
theorem run_compared {C : Congruence}
    (answer : ∀ p q, asks q → C.Rel (f.answer p q) (f'.answer p q))
    {handler : Handler α} (only : handler.AsksOnly asks) (p : Progress) :
    C.Rel (f.run handler p) (f'.run handler p) := by
  induction handler generalizing p with
  | done a => exact C.pure _
  | fault message => exact C.fault _
  | ask query next ih => exact C.bind (answer p query only.1) fun (a, p) ↦ ih a (only.2 a) p

/-- Whether calls of a handler in two frames are related. -/
def CalledAlike (C : Congruence) (f f' : Frame) (handler : Handler (Option Value)) : Prop :=
  ∀ callee p, C.Rel (f.call callee handler p) (f'.call callee handler p)

/-- A handler that runs alike is called alike. -/
theorem calledAlike_of_run {C : Congruence} {handler : Handler (Option Value)}
    (called : ∀ callee, C.Rel (Run.emit (.called callee)) (Run.emit (.called callee)))
    (run : ∀ p, C.Rel (f.run handler p) (f'.run handler p)) (passed? : C.Rel f.passed? f'.passed?)
    (returned : ∀ callee gave cancelled,
      C.Rel (Run.emit (.returned callee f.scope.depth gave cancelled))
        (Run.emit (.returned callee f'.scope.depth gave cancelled))) :
    CalledAlike C f f' handler := by
  intro callee p
  refine C.bind (called callee) fun _ ↦ C.bind (run p) fun result ↦ ?_
  exact C.bind passed? fun passed ↦ C.bind (returned _ _ _) fun _ ↦ C.pure _

/-- Frames of one chain that find the same in their registries, with related calls of what they
find. -/
structure Matched (C : Congruence) (f f' : Frame) : Prop where
  registry : Registry.Agree f.env.registry f'.env.registry
  chain : f'.chain = f.chain
  passed? : C.Rel f.passed? f'.passed?
  calls : f.env.registry.Satisfies (CalledAlike C f f') (CalledAlike C f f')

namespace Matched

variable {C : Congruence}

private theorem cursor (h : Matched C f f') (p : Progress) : f'.cursor p = f.cursor p := by
  rw [Frame.cursor, Frame.cursor, h.chain]

private theorem apply (h : Matched C f f') (callee : Callee) {attr : Attr} {v : Value}
    (called : CalledAlike C f f' (attr.handler v)) (kind : Kind) (p : Progress) :
    C.Rel (f.apply callee attr v kind p) (f'.apply callee attr v kind p) := by
  unfold Frame.apply
  rw [h.cursor, h.chain]
  split
  · exact C.pure _
  · refine C.bind (called callee p) fun (result, p) ↦ ?_
    simp only [h.cursor, h.registry.near]
    cases result <;> exact C.pure _

private theorem tryFallback (h : Matched C f f') (v : Value) (p : Progress) :
    C.Rel (f.tryFallback v p) (f'.tryFallback v p) := by
  unfold Frame.tryFallback
  rw [h.registry.fallback?]
  split
  · next found => exact h.calls.fallback found v _ p
  · exact C.pure _

private theorem applyShared (h : Matched C f f') (v : Value) (s : Segment) (p : Progress) :
    C.Rel (f.applyShared v s p) (f'.applyShared v s p) := by
  unfold Frame.applyShared
  rw [h.registry.universal?, h.registry.attribute?, h.registry.near, h.cursor, h.chain]
  split
  · next found => exact h.apply _ (h.calls.universal found v) _ p
  · split
    · next attr found =>
      split at found
      · contradiction
      · exact h.apply _ (h.calls.attr found _) _ p
    · exact C.pure _

private theorem dispatch (h : Matched C f f') (v : Value) (p : Progress) :
    C.Rel (f.dispatch v p) (f'.dispatch v p) := by
  unfold Frame.dispatch
  rw [h.cursor]
  split
  · exact C.pure _
  · next s _ =>
    rw [h.registry.attribute?]
    split
    · next found => exact h.apply _ (h.calls.attr found v) _ p
    · refine C.bind (h.tryFallback v p) fun (result, p) ↦ ?_
      cases result with
      | some next => exact C.pure _
      | none => exact h.applyShared v s p

private theorem walk (h : Matched C f f') (steps : Nat) (v : Value) (p : Progress) :
    C.Rel (f.walk steps v p) (f'.walk steps v p) := by
  induction steps generalizing v p with
  | zero => exact C.pure _
  | succ steps ih =>
    unfold Frame.walk
    rw [h.chain]
    split
    · exact C.pure _
    · refine C.bind h.passed? fun passed ↦ ?_
      cases passed with
      | some limit => exact C.pure _
      | none =>
        refine C.bind (h.dispatch v p) fun (result, p) ↦ ?_
        cases result with
        | error halt => exact C.pure _
        | ok next =>
          refine C.bind h.passed? fun passed ↦ ?_
          cases passed with
          | some limit => exact C.pure _
          | none => exact ih next _

private theorem runChain (h : Matched C f f') : C.Rel f.runChain f'.runChain := by
  unfold Frame.runChain
  dsimp only
  rw [h.chain, h.registry.base?]
  split
  · exact C.pure _
  · next base found =>
    refine C.bind (h.calls.base found _ {}) fun (result, p) ↦ ?_
    refine C.bind h.passed? fun passed ↦ ?_
    cases passed with
    | some limit => exact C.pure _
    | none =>
      cases result with
      | none => exact C.pure _
      | some v => exact h.walk _ v _

end Matched

namespace Compared

private theorem run (h : Compared C asks f f') {handler : Handler α} (only : handler.AsksOnly asks)
    (p : Progress) : C.Rel (f.run handler p) (f'.run handler p) :=
  run_compared h.answer only p

private theorem called (h : Compared C asks f f') {handler : Handler (Option Value)}
    (only : handler.AsksOnly asks) : CalledAlike C.toCongruence f f' handler :=
  calledAlike_of_run (fun _ ↦ C.emit rfl) (h.run only) h.passed? h.returned

private theorem matched (h : Compared C asks f f') : Matched C.toCongruence f f' where
  registry := h.registry
  chain := h.chain
  passed? := h.passed?
  calls := h.handlers.imp (fun _ only ↦ h.called only) fun _ only ↦ h.called only

end Compared

end Frame

/-! ## Texts -/

/-- A text that is one tag has no other fragment. -/
theorem Parsed.fragments_of_single {p : Parsed} {tag : Tag} (h : p.single? = some tag) :
    p.fragments = [.tag tag] := by
  unfold single? at h
  split at h
  · next t eq =>
    obtain rfl := Option.some.inj h
    exact eq
  · contradiction

private theorem Parsed.mem_of_single {p : Parsed} {tag : Tag} (h : p.single? = some tag) :
    .tag tag ∈ p.fragments :=
  fragments_of_single h ▸ List.mem_singleton_self _

/-- Whether an event reports a failure or remarks on one. -/
def Event.isFailure : Event → Bool
  | .error _ => true
  | .debug _ => true
  | _ => false

/-- Reports of failures are plain events. -/
theorem Event.isPlain_of_isFailure {e : Event} (h : e.isFailure) : e.isPlain := by
  cases e with
  | error | debug => rfl
  | _ => contradiction

/-- What is reported of a halt are failures. -/
theorem Report.events_isFailure (raw : String) (halt : Halt) :
    ∀ e ∈ Report.events raw halt, e.isFailure := by
  intro e mem
  unfold events at mem
  cases e with
  | error | debug => rfl
  | _ => cases last : halt.lastValid <;> simp [last] at mem

namespace Env

/-- Environments whose reports are related. -/
structure ReportsAlike (C : Congruence) (env env' : Env) : Prop where
  filled : ∀ tag v, C.Rel (env.reportFill tag v) (env'.reportFill tag v)
  failures : ∀ events : List Event, (∀ e ∈ events, e.isFailure) →
    C.Rel (env.report events) (env'.report events)

/-- In one context everything is reported alike. -/
theorem ReportsAlike.of_context {C : Comparison} {env env' : Env}
    (context : env'.context = env.context) : ReportsAlike C.toCongruence env env' where
  filled tag v := by
    unfold reportFill
    rw [context]
    split
    · exact C.emit rfl
    · exact C.pure _
  failures events all := by
    unfold report
    rw [context]
    split
    · exact C.forM fun e mem ↦ C.emit (Event.isPlain_of_isFailure (all e mem))
    · exact C.pure _

variable {C : Congruence} {env env' : Env} {fill fill' : Scope → String → Run Value} {s s' : Scope}

/-- Frames that match resolve their chain alike where the caller stands. -/
theorem resolveInline_matched {chain : Chain}
    (frames : Frame.Matched C ⟨env, s.deeper, fill s.deeper, chain⟩
      ⟨env', s'.deeper, fill' s'.deeper, chain⟩) :
    C.Rel (env.resolveInline fill s chain) (env'.resolveInline fill' s' chain) :=
  C.contain _ frames.runChain

/-- Frames that compare resolve their chain alike where the caller stands. -/
theorem resolveInline_compared {C : Comparison} {asks : Query → Prop} {chain : Chain}
    (frames : Frame.Compared C asks ⟨env, s.deeper, fill s.deeper, chain⟩
      ⟨env', s'.deeper, fill' s'.deeper, chain⟩) :
    C.Rel (env.resolveInline fill s chain) (env'.resolveInline fill' s' chain) :=
  resolveInline_matched frames.matched

/-- A job is compared where no other resolution is under way. -/
theorem resolveTimed_compared {chain : Chain} (depth : s'.depth = s.depth)
    (inline : C.Rel (env.resolveInline fill s chain) (env.resolveInline fill' s' chain))
    (guarded : s.depth = 0 → ∀ limit,
      C.Rel (env.resolveGuarded fill limit chain) (env.resolveGuarded fill' limit chain)) :
    C.Rel (env.resolveTimed fill s chain) (env.resolveTimed fill' s' chain) := by
  unfold resolveTimed
  rw [depth]
  split
  · exact C.fault _
  · exact inline
  · split
    · next asked => exact guarded asked.1 _
    · exact inline

/-- A tag is read alike where its chain is resolved and its alternative filled alike. -/
theorem readTag_compared (reports : ReportsAlike C env env') {tag : Tag}
    (resolve : C.Rel (env.resolve fill s tag.chain) (env'.resolve fill' s' tag.chain))
    (alternative : ∀ text, tag.chain.alternative = some text →
      C.Rel (fill s text) (fill' s' text)) :
    C.Rel (env.readTag fill s tag) (env'.readTag fill' s' tag) := by
  refine C.bind resolve fun outcome ↦ ?_
  cases outcome with
  | fulfilled v _ => exact C.bind (reports.filled tag v) fun _ ↦ C.pure _
  | halted halt =>
    cases other : tag.chain.alternative with
    | some text =>
      refine C.bind (alternative text other) fun v ↦ ?_
      exact C.bind (reports.filled tag v) fun _ ↦ C.pure _
    | none => exact C.bind (reports.failures _ (Report.events_isFailure _ _)) fun _ ↦ C.pure _

/-- A fragment is filled alike where its tag is read alike. -/
theorem fillFragment_compared (reports : ReportsAlike C env env') {fragment : Fragment}
    (tags : ∀ tag, fragment = .tag tag →
      C.Rel (env.readTag fill s tag) (env'.readTag fill' s' tag)) :
    C.Rel (env.fillFragment fill s fragment) (env'.fillFragment fill' s' fragment) := by
  cases fragment with
  | literal text => exact C.pure _
  | tag tag => exact C.bind (tags tag rfl) fun _ ↦ C.pure _
  | issue message source =>
    refine C.bind (reports.failures _ fun e mem ↦ ?_) fun _ ↦ C.pure _
    rw [List.mem_singleton.1 mem]
    rfl

/-- Fragments are filled alike where their tags are read alike. -/
theorem fillFragments_compared (reports : ReportsAlike C env env') {fragments : List Fragment}
    (tags : ∀ tag, .tag tag ∈ fragments →
      C.Rel (env.readTag fill s tag) (env'.readTag fill' s' tag)) :
    C.Rel (env.fillFragments fill s fragments) (env'.fillFragments fill' s' fragments) := by
  induction fragments with
  | nil => exact C.pure _
  | cons fragment rest ih =>
    have others := ih fun tag mem ↦ tags tag (List.mem_cons_of_mem _ mem)
    refine C.bind (fillFragment_compared reports fun tag eq ↦ ?_) fun _ ↦
      C.bind others fun _ ↦ C.pure _
    exact tags tag (List.mem_cons.2 (.inl eq.symm))

/-- Fills of a text are related where it is cut alike and its tags are read alike. `cut` is what is
known of the fragments. -/
theorem fillText_compared (reports : ReportsAlike C env env') (text : String)
    (cut : Parsed → Prop)
    (parse : ∀ {f g : Shared → Run Value}, (∀ shared shared' : Shared,
        shared'.parsed = shared.parsed → cut shared.parsed → C.Rel (f shared) (g shared')) →
      C.Rel (Run.parse text >>= f) (Run.parse text >>= g))
    (tags : ∀ parsed, cut parsed → ∀ tag, .tag tag ∈ parsed.fragments →
      C.Rel (env.readTag fill s tag) (env'.readTag fill' s' tag)) :
    C.Rel (env.fillText fill s text) (env'.fillText fill' s' text) := by
  unfold fillText
  split
  · exact C.pure _
  · refine parse fun shared shared' same known ↦ ?_
    rw [same]
    cases single : shared.parsed.single? with
    | some tag => exact tags _ known tag (Parsed.mem_of_single single)
    | none => exact C.bind (fillFragments_compared reports (tags _ known)) fun _ ↦ C.pure _

end Env

end TextTags
