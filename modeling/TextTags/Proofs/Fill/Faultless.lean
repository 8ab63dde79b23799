import TextTags.Proofs.Fill.Boxing
import TextTags.Proofs.Fill.Provenance

/-!
# Breakdowns stay inside

Each resolution makes a halt of the breakdowns of its own handlers. So the only breakdown that
filling a text can end in is that of a time limit that cannot be represented. Where the handlers
fill no texts but parameters, all texts that are filled on the way are nested in the first, and
there is an end to it: filling gives a text.
-/

namespace TextTags

namespace Run

variable {α β : Type} {x : Run α} {f : α → Run β}

/-- Whether a run cannot end in a breakdown. -/
def Faultless (x : Run α) : Prop := ∀ w stop w', x w = .error stop w' → stop = .exhausted

namespace Faultless

/-- A value that is given is no breakdown. -/
theorem pure (a : α) : Faultless (Pure.pure a) := nofun

private theorem exhausted : Faultless (throw .exhausted : Run α) := fun _ _ _ eq ↦ by
  cases eq
  rfl

/-- Reading the world is no breakdown. -/
theorem get : Faultless (MonadState.get : Run World) := nofun

/-- An event is no breakdown. -/
theorem emit (e : Event) : (Run.emit e).Faultless := nofun

/-- Setting the clock is no breakdown. -/
theorem setClock (g : World → Nat) :
    (modify fun w ↦ { w with clock := g w } : Run Unit).Faultless := nofun

/-- Parsing is no breakdown. -/
theorem parse (text : String) : (Run.parse text).Faultless := nofun

/-- Two runs that cannot break down cannot do so one after the other. -/
theorem bind (h : x.Faultless) (next : ∀ a, (f a).Faultless) : (x >>= f).Faultless := by
  intro w stop w' eq
  cases ends : x w with
  | ok a u =>
    rw [bind_of_ok ends] at eq
    exact next a u stop w' eq
  | error first u =>
    rw [bind_of_error ends] at eq
    cases eq
    exact h w _ _ ends

private theorem forM {f : β → Run Unit} (h : ∀ b, (f b).Faultless) (xs : List β) :
    (xs.forM f).Faultless := by
  induction xs with
  | nil => exact pure ()
  | cons b rest ih => exact (h b).bind fun _ ↦ ih

private theorem contain (x : Run α) (recover : String → α) : (x.contain recover).Faultless :=
  fun _ _ _ eq ↦ contain_ne_fault eq

private theorem marked (depth : Nat) (h : x.Faultless) : (Run.marked depth x).Faultless :=
  get.bind fun _ ↦ (emit _).bind fun _ ↦ h.bind fun _ ↦ get.bind fun _ ↦ (emit _).bind fun _ ↦
    pure _

end Faultless

end Run

namespace Env

open Run

variable {env : Env} {fill : Scope → String → Run Value}

/-- A resolution breaks down at a time limit that cannot be represented, and nowhere else. -/
theorem resolve_faultless (limit : env.context.timeLimit ≠ .unrepresentable) (s : Scope)
    (chain : Chain) : (env.resolve fill s chain).Faultless := by
  refine Faultless.marked _ ?_
  unfold resolveTimed
  split
  · next broken => exact absurd broken limit
  · exact .contain _ _
  · split
    · refine Faultless.get.bind fun _ ↦ (Faultless.emit _).bind fun _ ↦ ?_
      refine (Faultless.contain _ _).bind fun _ ↦ (Faultless.emit _).bind fun _ ↦ ?_
      refine Faultless.get.bind fun _ ↦ ?_
      split <;> exact .pure _
    · exact .contain _ _

private theorem report_faultless (env : Env) (events : List Event) :
    (env.report events).Faultless := by
  unfold report
  split
  · exact .forM Faultless.emit events
  · exact .pure _

private theorem reportFill_faultless (env : Env) (tag : Tag) (v : Value) :
    (env.reportFill tag v).Faultless := by
  unfold reportFill
  split
  · exact .emit _
  · exact .pure _

private theorem readTag_faultless (limit : env.context.timeLimit ≠ .unrepresentable)
    (fills : ∀ s text, (fill s text).Faultless) (s : Scope) (tag : Tag) :
    (env.readTag fill s tag).Faultless := by
  refine (resolve_faultless limit s tag.chain).bind fun outcome ↦ ?_
  cases outcome with
  | fulfilled v _ => exact (env.reportFill_faultless tag v).bind fun _ ↦ .pure _
  | halted halt =>
    dsimp only
    split
    · exact (fills s _).bind fun v ↦ (env.reportFill_faultless tag v).bind fun _ ↦ .pure _
    · exact (env.report_faultless _).bind fun _ ↦ .pure _

private theorem fillFragments_faultless (tags : ∀ tag, (env.readTag fill s tag).Faultless)
    (fragments : List Fragment) : (env.fillFragments fill s fragments).Faultless := by
  induction fragments with
  | nil => exact .pure _
  | cons fragment rest ih =>
    refine Faultless.bind ?_ fun _ ↦ ih.bind fun _ ↦ .pure _
    cases fragment with
    | literal text => exact .pure _
    | tag tag => exact (tags tag).bind fun _ ↦ .pure _
    | issue message source => exact (env.report_faultless _).bind fun _ ↦ .pure _

private theorem fillText_faultless (limit : env.context.timeLimit ≠ .unrepresentable)
    (fills : ∀ s text, (fill s text).Faultless) (s : Scope) (text : String) :
    (env.fillText fill s text).Faultless := by
  unfold fillText
  split
  · exact .pure _
  · refine (Faultless.parse text).bind fun shared ↦ ?_
    split
    · exact readTag_faultless limit fills s _
    · exact (fillFragments_faultless (readTag_faultless limit fills s) _).bind fun _ ↦ .pure _

/-- Where the time limit can be represented, filling a text ends in no breakdown, whatever breaks
down inside. -/
theorem fillWithin_faultless (limit : env.context.timeLimit ≠ .unrepresentable) (levels : Nat)
    (s : Scope) (text : String) : (env.fillWithin levels s text).Faultless := by
  induction levels generalizing s text with
  | zero => exact .exhausted
  | succ levels ih => exact fillText_faultless limit ih s text

/-- Where the time limit can be represented, filling a text to a text ends in no breakdown. -/
theorem fillString_faultless (limit : env.context.timeLimit ≠ .unrepresentable) (levels : Nat)
    (text : String) : (env.fillString levels text).Faultless :=
  (fillWithin_faultless limit levels {} text).bind fun _ ↦ .pure _

end Env

/-! ## Filling ends -/

/-- Whether a query has a text filled that is not a parameter. -/
def Query.fillsText : Query → Bool
  | fill _ => true
  | _ => false

namespace Run

variable {α β : Type} {x : Run α}

/-- Whether a run that finds the cache faithful leaves it so and does not run out of levels. -/
def Ends (x : Run α) : Prop :=
  ∀ w, w.cache.Faithful → (x.last w).cache.Faithful ∧ x.result w ≠ .error .exhausted

namespace Ends

private theorem pure (a : α) : Ends (Pure.pure a) := fun _ faithful ↦ ⟨faithful, nofun⟩

private theorem get : Ends (MonadState.get : Run World) := fun _ faithful ↦ ⟨faithful, nofun⟩

private theorem emit (e : Event) : (Run.emit e).Ends := fun _ faithful ↦ ⟨faithful, nofun⟩

private theorem setClock (g : World → Nat) :
    (modify fun w ↦ { w with clock := g w } : Run Unit).Ends :=
  fun _ faithful ↦ ⟨faithful, nofun⟩

private theorem bind {f : α → Run β} (h : x.Ends) (next : ∀ a, (f a).Ends) : (x >>= f).Ends := by
  intro w faithful
  obtain ⟨kept, stop⟩ := h w faithful
  cases ends : x w with
  | ok a u =>
    rw [last_of_ok ends] at kept
    rw [result, last, bind_of_ok ends]
    exact next a u kept
  | error first u =>
    rw [last_of_error ends] at kept
    rw [result_of_error ends] at stop
    rw [result_of_error (bind_of_error ends), last_of_error (bind_of_error ends)]
    exact ⟨kept, fun eq ↦ stop (congrArg _ (Except.error.inj eq))⟩

private theorem contain (recover : String → α) (h : x.Ends) : (x.contain recover).Ends := by
  intro w faithful
  obtain ⟨kept, stop⟩ := h w faithful
  rw [result_contain]
  unfold last result Run.contain at *
  cases ends : x w with
  | ok a u =>
    rw [ends] at kept
    exact ⟨kept, nofun⟩
  | error first u =>
    rw [ends] at kept stop
    cases first with
    | fault message => exact ⟨kept, nofun⟩
    | exhausted => exact absurd rfl stop

private theorem parse {text : String} {f : Shared → Run β}
    (next : ∀ shared : Shared, shared.parsed = Parsed.ofText text → (f shared).Ends) :
    (Run.parse text >>= f).Ends := fun _ faithful ↦
  next _ (Cache.parsed_getOrParse faithful text) _ (faithful.getOrParse text)

end Ends

end Run

/-- The traversal of a run for whether it ends: nothing is said of the run beside it. -/
def Comparison.ends : Comparison where
  Rel x _ := x.Ends
  pure := .pure
  fault _ _ faithful := ⟨faithful, nofun⟩
  bind := .bind
  contain recover h := h.contain recover
  emit _ := .emit _

open Run

private theorem Frame.compared_ends {f : Frame} (handlers : f.env.registry.AsksOnly (!·.fillsText))
    (fills : ∀ raw ∈ f.chain.params, (f.fill raw).Ends) :
    Compared .ends (!·.fillsText) f f where
  registry := .refl _
  handlers := handlers
  chain := rfl
  passed? := Ends.get.bind fun _ ↦ .pure _
  answer p q asked := by
    have passed? : f.passed?.Ends := Ends.get.bind fun _ ↦ .pure _
    cases q with
    | fill => contradiction
    | depth => exact Run.Ends.pure _
    | elapse nanos => exact (Ends.setClock _).bind fun _ ↦ .pure _
    | awaitCancel =>
      refine Run.Ends.bind ?_ fun _ ↦ .pure _
      unfold awaitCancel
      split
      · exact .setClock _
      · exact .pure _
    | note => exact passed?.bind fun _ ↦ (Ends.emit _).bind fun _ ↦ .pure _
    | cursor | fulfill | seem | lackParam | param | host | context | cancelled =>
      exact answer_compared (C := .ends) (f := f) rfl rfl rfl passed? fills p _ rfl
  returned _ _ _ := Ends.emit _

namespace Env

variable {env : Env} {fill : Scope → String → Run Value}

private theorem resolve_ends (handlers : env.registry.AsksOnly (!·.fillsText)) {chain : Chain}
    (fills : ∀ s, ∀ raw ∈ chain.params, (fill s raw).Ends) (s : Scope) :
    (env.resolve fill s chain).Ends := by
  have inline (s : Scope) : (env.resolveInline fill s chain).Ends := by
    have traversed : Comparison.ends.Rel (env.resolveInline fill s chain)
        (env.resolveInline fill s chain) :=
      resolveInline_compared (Frame.compared_ends handlers (fills s.deeper))
    exact traversed
  have timed : Comparison.ends.Rel (env.resolveTimed fill s chain)
      (env.resolveTimed fill s chain) := by
    refine resolveTimed_compared rfl (inline s) fun _ limit ↦ ?_
    refine Ends.get.bind fun _ ↦ (Ends.emit _).bind fun _ ↦ (inline _).bind fun _ ↦ ?_
    refine (Ends.emit _).bind fun _ ↦ Ends.get.bind fun _ ↦ ?_
    split <;> exact .pure _
  exact Ends.get.bind fun _ ↦ (Ends.emit _).bind fun _ ↦ Ends.bind timed fun _ ↦
    Ends.get.bind fun _ ↦ (Ends.emit _).bind fun _ ↦ .pure _

/-- Each nested text is shorter than the one that it is nested in, so that filling ends within as
many levels as a text is long, and one more. -/
theorem fillWithin_ends (handlers : env.registry.AsksOnly (!·.fillsText)) {text : String}
    {levels : Nat} (enough : text.length < levels) (s : Scope) :
    (env.fillWithin levels s text).Ends := by
  induction levels generalizing text s with
  | zero => contradiction
  | succ levels ih =>
    have fills (s : Scope) (inner : String) (nested : inner ∈ (Parsed.ofText text).nested) :
        (env.fillWithin levels s inner).Ends := by
      have shorter := (Parsed.nested_ofText nested).2
      exact ih (by omega) s
    have whole : Comparison.ends.Rel (env.fillText (env.fillWithin levels) s text)
        (env.fillText (env.fillWithin levels) s text) := by
      refine fillText_compared (.of_context rfl) text (· = Parsed.ofText text)
        (fun next ↦ Ends.parse fun shared parsed ↦ next shared shared rfl parsed) ?_
      rintro _ rfl tag mem
      have inner (s : Scope) (other : String) (nested : other ∈ tag.chain.nested) :
          (env.fillWithin levels s other).Ends := fills s other (Parsed.mem_nested mem nested)
      have resolved : Comparison.ends.Rel (env.resolve (env.fillWithin levels) s tag.chain)
          (env.resolve (env.fillWithin levels) s tag.chain) :=
        resolve_ends handlers (fun s raw param ↦ inner s raw (List.mem_append_left _ param)) s
      exact readTag_compared (.of_context rfl) resolved fun other alternative ↦
        inner s other (List.mem_append_right _ (Option.mem_toList.2 alternative))
    exact whole

/-- Where the time limit can be represented and handlers fill nothing but parameters, filling a text
gives a value. -/
theorem fillWithin_ok (limit : env.context.timeLimit ≠ .unrepresentable)
    (handlers : env.registry.AsksOnly (!·.fillsText)) {text : String} {levels : Nat}
    (enough : text.length < levels) {w : World} (faithful : w.cache.Faithful) (s : Scope) :
    ∃ v w', env.fillWithin levels s text w = .ok v w' ∧ w'.cache.Faithful := by
  obtain ⟨kept, stop⟩ := fillWithin_ends handlers enough s w faithful
  cases filled : env.fillWithin levels s text w with
  | ok v w' =>
    rw [last_of_ok filled] at kept
    exact ⟨v, w', rfl, kept⟩
  | error first w' =>
    rw [result_of_error filled, fillWithin_faultless limit levels s text w first w' filled] at stop
    contradiction

/-- Where the time limit can be represented and handlers fill nothing but parameters, filling a text
gives a text. -/
theorem fillString_ok (limit : env.context.timeLimit ≠ .unrepresentable)
    (handlers : env.registry.AsksOnly (!·.fillsText)) {text : String} {levels : Nat}
    (enough : text.length < levels) {w : World} (faithful : w.cache.Faithful) :
    ∃ filled w', env.fillString levels text w = .ok filled w' ∧ w'.cache.Faithful := by
  obtain ⟨v, w', filled, kept⟩ := fillWithin_ok limit handlers enough faithful {}
  exact ⟨v.identity, w', bind_of_ok filled, kept⟩

end Env

/-- The handlers of the core fill nothing but parameters. -/
theorem Registry.core_fillsNothing : Registry.core.AsksOnly (!·.fillsText) := by
  have plain (h : Handler (Option Value)) : h.AsksOnly (·.isPlain) → h.AsksOnly (!·.fillsText) :=
    Handler.AsksOnly.imp fun q plain ↦ by cases q <;> trivial
  exact Registry.core_plain.imp plain plain

end TextTags
