import TextTags.Proofs.Fill.Comparison
import TextTags.Proofs.Fill.Run

/-!
# What runs leave in the trace

No run takes an event back or turns the clock back. What events a fill leaves is told by what it may
leave at each depth: what the caller wants reported, and the returns of handlers, which lie below
the depth at which the fill was asked for.
-/

namespace TextTags

/-- A world that can come after another: time has not gone back, and all events between the two have
a property. -/
structure World.Follows (holds : Event → Prop) (w w' : World) : Prop where
  clock : w.clock ≤ w'.clock
  trace : ∃ events, w'.trace = w.trace ++ events ∧ ∀ e ∈ events, holds e

namespace World.Follows

variable {holds : Event → Prop} {w w' w'' : World}

private theorem refl (holds : Event → Prop) (w : World) : World.Follows holds w w :=
  ⟨Nat.le_refl _, [], by simp, by simp⟩

private theorem trans (h : World.Follows holds w w') (h' : World.Follows holds w' w'') :
    World.Follows holds w w'' := by
  obtain ⟨first, eq, all⟩ := h.trace
  obtain ⟨more, eq', all'⟩ := h'.trace
  refine ⟨Nat.le_trans h.clock h'.clock, first ++ more, ?_, ?_⟩
  · rw [eq', eq, List.append_assoc]
  · intro e mem
    exact (List.mem_append.1 mem).elim (all e) (all' e)

private theorem imp {holds' : Event → Prop} (h : World.Follows holds w w')
    (le : ∀ e, holds e → holds' e) : World.Follows holds' w w' := by
  obtain ⟨events, eq, all⟩ := h.trace
  exact ⟨h.clock, events, eq, fun e mem ↦ le e (all e mem)⟩

end World.Follows

namespace Run

variable {α β : Type} {holds : Event → Prop} {x : Run α}

/-- A run that leaves no events but those with a property. -/
def Leaves (holds : Event → Prop) (x : Run α) : Prop := ∀ w, World.Follows holds w (x.last w)

namespace Leaves

/-- A value that is given leaves no event. -/
theorem pure (a : α) : (Pure.pure a : Run α).Leaves holds := fun w ↦ .refl holds w

/-- A run that stops at once leaves no event. -/
theorem throw (stop : Stop) : (throw stop : Run α).Leaves holds := fun w ↦ .refl holds w

/-- Reading the world leaves no event. -/
theorem get : (get : Run World).Leaves holds := fun w ↦ .refl holds w

/-- Two runs leave one after the other what each of them leaves. -/
theorem bind {f : α → Run β} (h : x.Leaves holds) (next : ∀ a, (f a).Leaves holds) :
    (x >>= f).Leaves holds := by
  intro w
  have first := h w
  cases ends : x w with
  | ok a w' =>
    rw [last_of_ok ends] at first
    rw [last, bind_of_ok ends]
    exact first.trans (next a w')
  | error stop w' =>
    rw [last_of_error ends] at first
    rwa [last_of_error (bind_of_error ends)]

/-- An event is what is left of it. -/
theorem emit {e : Event} (h : holds e) : (emit e).Leaves holds := fun _ ↦
  ⟨Nat.le_refl _, [e], rfl, fun _ mem ↦ List.mem_singleton.1 mem ▸ h⟩

/-- Nothing but the clock is set, and never back. -/
theorem setClock {g : World → Nat} (h : ∀ w, w.clock ≤ g w) :
    (modify fun w ↦ { w with clock := g w } : Run Unit).Leaves holds := fun w ↦
  ⟨h w, [], (List.append_nil _).symm, by simp⟩

/-- Parsing leaves the event that tells of it. -/
theorem parse {text : String} (h : holds (.parsed text)) : (Run.parse text).Leaves holds :=
  fun _ ↦ ⟨Nat.le_refl _, [.parsed text], rfl, fun _ mem ↦ List.mem_singleton.1 mem ▸ h⟩

/-- A contained run leaves what the run leaves. -/
theorem contain (h : x.Leaves holds) (recover : String → α) :
    (x.contain recover).Leaves holds := by
  intro w
  have first := h w
  unfold last Run.contain at *
  cases ends : x w with
  | ok a w' =>
    rw [ends] at first
    exact first
  | error stop w' =>
    rw [ends] at first
    cases stop <;> exact first

/-- A run leaves nothing but what its events imply. -/
theorem imp {holds' : Event → Prop} (h : x.Leaves holds) (le : ∀ e, holds e → holds' e) :
    x.Leaves holds' :=
  fun w ↦ (h w).imp le

/-- What is said of the events that a run leaves holds of each that it adds. -/
theorem of_mem_adds (h : x.Leaves holds) {w : World} {e : Event} (mem : e ∈ x.adds w) :
    holds e := by
  obtain ⟨events, eq, all⟩ := (h w).trace
  rw [adds, eq, List.drop_left] at mem
  exact all e mem

end Leaves

end Run

/-- The traversal of a run for what it leaves: nothing is said of the run beside it. -/
def Congruence.leaves (holds : Event → Prop) : Congruence where
  Rel x _ := x.Leaves holds
  pure := .pure
  fault message := .throw (.fault message)
  bind := .bind
  contain recover h := h.contain recover

/-- Whether an event is neither a report nor the return of a handler. -/
def Event.isNeutral : Event → Bool
  | .error _ => false
  | .debug _ => false
  | .filled _ _ => false
  | .returned _ _ _ _ => false
  | _ => true

/-- Whether an event is a step of a resolution: a neutral one that does not mark where a resolution
begins or ends. -/
def Event.isStep (e : Event) : Bool :=
  match e with
  | .began _ => false
  | .ended _ _ _ => false
  | e => e.isNeutral

/-- Events that tell of steps are neutral. -/
theorem Event.isNeutral_of_isStep {e : Event} (h : e.isStep) : e.isNeutral := by
  cases e with
  | began | ended => contradiction
  | _ => exact h

/-- What a fill may leave in the trace, by the number of resolutions under way: what may be left
deeper may be left above, the handlers of a resolution return deeper than it was begun, and there
are reports where the caller wants them. -/
structure Env.Admits (env : Env) (holds : Nat → Event → Prop) : Prop where
  above : ∀ {upper depth : Nat} {e : Event}, upper ≤ depth → holds depth e → holds upper e
  neutral : ∀ {depth : Nat} {e : Event}, e.isNeutral → holds depth e
  returned : ∀ depth callee gave cancelled,
    holds depth (.returned callee (depth + 1) gave cancelled)
  failures : env.context.showErrors → ∀ {depth : Nat} {e : Event}, e.isFailure → holds depth e
  filled : env.context.debug → ∀ depth tag value, holds depth (.filled tag value)

open Run

section

variable {env : Env} {holds : Nat → Event → Prop}

namespace Frame

variable {f : Frame} {depth : Nat} {only : Event → Prop}

/-- Asking whether time has run out leaves no event. -/
theorem passed?_leaves (only : Event → Prop) : f.passed?.Leaves only :=
  Leaves.get.bind fun _ ↦ .pure _

/-- An answer leaves what the text leaves that is filled for it. -/
theorem answer_leaves (steps : ∀ {e : Event}, e.isStep → only e)
    (params : ∀ raw ∈ f.chain.params, (f.fill raw).Leaves only) (p : Progress) {q : Query}
    (texts : ∀ text, q = .fill text → (f.fill text).Leaves only) : (f.answer p q).Leaves only := by
  cases q with
  | fill text => exact (texts text rfl).bind fun _ ↦ .pure _
  | depth => exact .pure _
  | elapse nanos =>
    exact (Leaves.setClock fun w ↦ Nat.le_add_right _ _).bind fun _ ↦ .pure _
  | awaitCancel =>
    refine Leaves.bind ?_ fun _ ↦ .pure _
    unfold awaitCancel
    split
    · exact Leaves.setClock fun w ↦ Nat.le_max_left _ _
    · exact .pure _
  | note =>
    refine (passed?_leaves _).bind fun passed ↦ ?_
    exact Leaves.bind (.emit (steps rfl)) fun _ ↦ .pure _
  | cursor | fulfill | seem | lackParam | param | host | context | cancelled =>
    exact answer_matched (C := .leaves only) (f := f) rfl rfl rfl (fun _ ↦ .emit (steps rfl))
      (passed?_leaves _) params p _ rfl

/-- A handler leaves what the texts that it fills leave. -/
theorem run_leaves {α : Type} (admits : f.env.Admits holds)
    (fill : ∀ text, (f.fill text).Leaves (holds depth)) (h : Handler α) (p : Progress) :
    (f.run h p).Leaves (holds depth) := by
  have answer (p : Progress) (q : Query) : (f.answer p q).Leaves (holds depth) :=
    answer_leaves (fun step ↦ admits.neutral (Event.isNeutral_of_isStep step))
      (fun raw _ ↦ fill raw) p fun text _ ↦ fill text
  have run : (Congruence.leaves (holds depth)).Rel (f.run h p) (f.run h p) :=
    run_compared (fun p q _ ↦ answer p q) (Handler.asksOnly_of_forall (fun _ ↦ trivial) h) p
  exact run

/-- A chain leaves what its handlers leave where they are answered. -/
theorem matched_leaves {asks : Query → Prop} (handlers : f.env.registry.AsksOnly asks)
    (steps : ∀ {e : Event}, e.isStep → only e)
    (answer : ∀ p q, asks q → (f.answer p q).Leaves only)
    (returned : ∀ callee gave cancelled, only (.returned callee f.scope.depth gave cancelled)) :
    Matched (.leaves only) f f := by
  have called (handler : Handler (Option Value)) (asked : handler.AsksOnly asks) :
      CalledAlike (.leaves only) f f handler :=
    calledAlike_of_run (fun _ ↦ .emit (steps rfl)) (run_compared answer asked) (passed?_leaves _)
      fun callee gave cancelled ↦ .emit (returned callee gave cancelled)
  exact {
    registry := .refl _
    chain := rfl
    passed? := passed?_leaves _
    calls := handlers.imp called called }

end Frame

namespace Env

variable {fill : Scope → String → Run Value}

/-- Where the reports that are wanted are admitted, only admitted ones are left. -/
theorem reportsAlike_leaves {only : Event → Prop}
    (filled : env.context.debug → ∀ tag value, only (.filled tag value))
    (failures : env.context.showErrors → ∀ {e : Event}, e.isFailure → only e) :
    ReportsAlike (.leaves only) env env where
  filled tag v := by
    unfold reportFill
    split
    · next wanted => exact .emit (filled wanted _ _)
    · exact .pure _
  failures events all := by
    unfold report
    split
    · next wanted => exact Congruence.forM _ fun e mem ↦ .emit (failures wanted (all e mem))
    · exact .pure _

/-- A chain that is resolved where the caller stands leaves steps, the returns of its handlers and
what the texts leave that are filled for it. -/
theorem resolveInline_leaves {asks : Query → Prop} {only : Event → Prop} {s : Scope} {chain : Chain}
    (handlers : env.registry.AsksOnly asks) (steps : ∀ {e : Event}, e.isStep → only e)
    (returned : ∀ callee gave cancelled, only (.returned callee (s.depth + 1) gave cancelled))
    (params : ∀ raw ∈ chain.params, (fill s.deeper raw).Leaves only)
    (texts : ∀ text, asks (.fill text) → (fill s.deeper text).Leaves only) :
    (env.resolveInline fill s chain).Leaves only := by
  let f : Frame := ⟨env, s.deeper, fill s.deeper, chain⟩
  have answer (p : Progress) (q : Query) (asked : asks q) : (f.answer p q).Leaves only :=
    Frame.answer_leaves steps params p fun text eq ↦ texts text (eq ▸ asked)
  have matched : Frame.Matched (.leaves only) f f :=
    Frame.matched_leaves handlers steps answer returned
  exact resolveInline_matched matched

/-- Between its marks a resolution leaves what its chain leaves, resolved here or in a job. -/
theorem resolveTimed_leaves {only : Event → Prop} {s : Scope} {chain : Chain}
    (steps : ∀ {e : Event}, e.isStep → only e)
    (inline : (env.resolveInline fill s chain).Leaves only)
    (job : s.depth = 0 → ∀ limit clock,
      (env.resolveInline fill (Scope.ofJob limit clock) chain).Leaves only) :
    (env.resolveTimed fill s chain).Leaves only := by
  have guarded (alone : s.depth = 0) (limit : Limit) :
      (env.resolveGuarded fill limit chain).Leaves only := by
    refine Leaves.get.bind fun w ↦ Leaves.bind (.emit (steps rfl)) fun _ ↦ ?_
    refine (job alone limit w.clock).bind fun outcome ↦ ?_
    refine Leaves.bind (.emit (steps rfl)) fun _ ↦ Leaves.get.bind fun w' ↦ ?_
    split <;> exact .pure _
  have timed : (Congruence.leaves only).Rel (env.resolveTimed fill s chain)
      (env.resolveTimed fill s chain) :=
    resolveTimed_compared rfl inline guarded
  exact timed

/-- A resolution leaves its marks and what it leaves between them. -/
theorem resolve_leaves_of_timed {only : Event → Prop} {s : Scope} {chain : Chain}
    (began : only (.began s.depth)) (ended : ∀ start stop, only (.ended s.depth start stop))
    (timed : (env.resolveTimed fill s chain).Leaves only) :
    (env.resolve fill s chain).Leaves only := by
  refine Leaves.get.bind fun w ↦ (Leaves.emit began).bind fun _ ↦ timed.bind fun outcome ↦ ?_
  exact Leaves.get.bind fun w' ↦ (Leaves.emit (ended _ _)).bind fun _ ↦ .pure _

/-- What may be left where a chain is resolved in the end may be left where that is asked for. -/
theorem resolve_leaves_of_inline {chain : Chain} {s : Scope}
    (above : ∀ {upper depth : Nat} {e : Event}, upper ≤ depth → holds depth e → holds upper e)
    (neutral : ∀ {depth : Nat} {e : Event}, e.isNeutral → holds depth e)
    (inline : ∀ s, (env.resolveInline fill s chain).Leaves (holds s.depth)) :
    (env.resolve fill s chain).Leaves (holds s.depth) := by
  refine resolve_leaves_of_timed (neutral rfl) (fun _ _ ↦ neutral rfl) ?_
  refine resolveTimed_leaves (fun step ↦ neutral (Event.isNeutral_of_isStep step)) (inline s)
    fun alone limit clock ↦ ?_
  exact (inline (Scope.ofJob limit clock)).imp fun e ↦ above (alone ▸ Nat.zero_le _)

private theorem resolve_leaves (admits : env.Admits holds)
    (fills : ∀ s text, (fill s text).Leaves (holds s.depth)) (s : Scope) (chain : Chain) :
    (env.resolve fill s chain).Leaves (holds s.depth) := by
  refine resolve_leaves_of_inline admits.above admits.neutral fun s ↦ ?_
  have deeper (text : String) : (fill s.deeper text).Leaves (holds s.depth) :=
    (fills s.deeper text).imp fun e ↦ admits.above (Nat.le_succ _)
  exact resolveInline_leaves (Registry.asksOnly_of_forall (fun _ ↦ trivial) _)
    (fun step ↦ admits.neutral (Event.isNeutral_of_isStep step)) (admits.returned s.depth)
    (fun raw _ ↦ deeper raw) fun text _ ↦ deeper text

/-- What is filled leaves what resolutions leave, as long as these leave nothing but what is left of
texts nested less deep. -/
theorem fillWithin_leaves_of_resolve
    (reports : ∀ depth, ReportsAlike (.leaves (holds depth)) env env)
    (parsed : ∀ depth text, holds depth (.parsed text))
    (resolve : ∀ {fill : Scope → String → Run Value},
      (∀ s text, (fill s text).Leaves (holds s.depth)) →
        ∀ s chain, (env.resolve fill s chain).Leaves (holds s.depth))
    (levels : Nat) (s : Scope) (text : String) :
    (env.fillWithin levels s text).Leaves (holds s.depth) := by
  induction levels generalizing s text with
  | zero => exact .throw _
  | succ levels ih =>
    let C : Congruence := .leaves (holds s.depth)
    have readTag (tag : Tag) : C.Rel (env.readTag (env.fillWithin levels) s tag)
        (env.readTag (env.fillWithin levels) s tag) :=
      readTag_compared (reports s.depth) (resolve ih s tag.chain) fun text _ ↦ ih s text
    have whole : C.Rel (env.fillText (env.fillWithin levels) s text)
        (env.fillText (env.fillWithin levels) s text) := by
      refine fillText_compared (reports s.depth) text (fun _ ↦ True) (fun next ↦ ?_)
        fun _ _ tag _ ↦ readTag tag
      refine (Leaves.parse (parsed _ _)).bind fun shared ↦ ?_
      exact next shared shared rfl trivial
    exact whole

/-- What is filled at a depth leaves what may be left there. -/
theorem fillWithin_leaves (admits : env.Admits holds) (levels : Nat) (s : Scope) (text : String) :
    (env.fillWithin levels s text).Leaves (holds s.depth) :=
  fillWithin_leaves_of_resolve
    (fun depth ↦ reportsAlike_leaves (fun wanted ↦ admits.filled wanted depth)
      fun wanted ↦ admits.failures wanted)
    (fun _ _ ↦ admits.neutral rfl) (resolve_leaves admits) levels s text

end Env

end

/-! ## Returns -/

/-- Whether an event is no return of a handler, or one at a depth below a given one. -/
def Event.Beneath (depth : Nat) : Event → Prop
  | .returned _ d _ _ => depth < d
  | _ => True

/-- A run that leaves returns only beneath a depth. -/
abbrev Run.Beneath {α : Type} (depth : Nat) (x : Run α) : Prop := x.Leaves (Event.Beneath depth)

private theorem Event.beneath_of_isPlain {e : Event} (plain : e.isPlain) (depth : Nat) :
    e.Beneath depth := by
  cases e with
  | returned => contradiction
  | _ => trivial

namespace Env

/-- Every environment leaves nothing but events beneath a depth. -/
theorem admits_beneath (env : Env) : env.Admits Event.Beneath where
  above {_ _ e} le deep := by
    cases e with
    | returned => exact Nat.lt_of_le_of_lt le deep
    | _ => trivial
  neutral {_ e} neutral := by
    cases e with
    | returned => contradiction
    | _ => trivial
  returned depth _ _ _ := Nat.lt_succ_self depth
  failures _ _ _ failure := Event.beneath_of_isPlain (Event.isPlain_of_isFailure failure) _
  filled _ _ _ _ := trivial

/-- The resolution of a chain leaves nothing but events beneath the depth of its caller. -/
theorem resolve_beneath (env : Env) {fill : Scope → String → Run Value}
    (h : ∀ s text, (fill s text).Beneath s.depth) (s : Scope) (chain : Chain) :
    (env.resolve fill s chain).Beneath s.depth :=
  resolve_leaves env.admits_beneath h s chain

/-- What is filled at a depth leaves returns only beneath it. -/
theorem fillWithin_beneath (env : Env) (levels : Nat) (s : Scope) (text : String) :
    (env.fillWithin levels s text).Beneath s.depth :=
  fillWithin_leaves env.admits_beneath levels s text

end Env

end TextTags
