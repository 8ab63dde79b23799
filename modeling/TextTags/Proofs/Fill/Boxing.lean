import TextTags.Proofs.Fill.Comparison
import TextTags.Proofs.Fill.Alike
import TextTags.Proofs.Fill.Opening
import TextTags.Proofs.Fill.Trace
import TextTags.Proofs.Limit
import TextTags.Proofs.Lineage

/-!
# Filling with and without time-boxing

A host may ask for the time limit to be kept. As long as no job runs past its limit, that changes
nothing in what a text is filled with and in what is reported, and all that it adds to the trace are
the two hooks around each resolution that begins where no other is under way.
-/

namespace TextTags

open Run

/-- Whether an event is a hook around a resolution under the time limit. -/
def Event.isHook : Event → Bool
  | .before => true
  | .after => true
  | _ => false

/-- Whether an event is a report to the host: a failure, a remark or a filled tag. -/
def Event.isReport : Event → Bool
  | .error _ => true
  | .debug _ => true
  | .filled _ _ => true
  | _ => false

/-- What an event is where the time limit is kept: the beginning and the end of a resolution of
which no other is under way have the hooks inside, and what belongs to a resolution lies deeper by
the job around it. -/
def Event.boxed : Event → List Event
  | .began 0 => [.began 0, .before]
  | .began (depth + 1) => [.began (depth + 2)]
  | .ended 0 start stop => [.after, .ended 0 start stop]
  | .ended (depth + 1) start stop => [.ended (depth + 2) start stop]
  | .returned callee depth gave cancelled => [.returned callee (depth + 1) gave cancelled]
  | e => [e]

/-- Whether an event is no end of a resolution that began alone, or one before the limit had
passed. -/
def Event.isPunctual (limit : Limit) : Event → Bool
  | .ended 0 start stop => stop < start + limit.nanos
  | _ => true

/-- An environment whose host asks for the time limit always or never. -/
def Env.boxing (env : Env) (asks : Bool) : Env :=
  { env with host := { env.host with timeBoxes := fun _ ↦ asks } }

/-- Whether chains are resolved under the time limit does not matter to the host's answers. -/
theorem Env.answer_boxing (env : Env) (asks : Bool) :
    (env.boxing asks).host.answer = env.host.answer := env.host.answer_timeBoxes _

/-- Without time limits no chain is resolved in a job. -/
theorem Env.jobLimit?_boxing_false (env : Env) (s : Scope) :
    (env.boxing false).jobLimit? s = none := by
  unfold jobLimit?
  split
  · exact if_neg fun asked ↦ Bool.false_ne_true asked.2
  · rfl

/-- What an event is where the host asks for the time limit: nothing else where there is none. -/
def Env.hooked (env : Env) : Event → List Event :=
  match env.context.timeLimit with
  | .within _ => Event.boxed
  | _ => fun e ↦ [e]

namespace Run

variable {α β : Type} {P : World → Prop} {R : World → World → Prop}

/-- The second computation ends as the first where that comes to an end in a world with a
property. -/
structure Until (P : World → Prop) (R : World → World → Prop) (x y : Run α) : Prop where
  forward : x.Beneath 0
  ends : ∀ ⦃w w' : World⦄, R w w' → x.result w ≠ .error .exhausted → P (x.last w) →
    EndsAlike R Eq (x w) (y w')

/-- A property that held before if it holds later on. -/
def Lapses (P : World → Prop) : Prop :=
  ∀ ⦃w w' : World⦄, World.Follows (Event.Beneath 0) w w' → P w' → P w

namespace Until

private theorem pure (a : α) : Until P R (pure a) (pure a) :=
  ⟨.pure a, fun _ _ worlds _ _ ↦ .ok rfl worlds⟩

private theorem throw (stop : Stop) : Until P R (throw stop : Run α) (throw stop) :=
  ⟨.throw stop, fun _ _ worlds _ _ ↦ .error worlds⟩

private theorem bind (lapses : Lapses P) {x y : Run α} {f g : α → Run β} (h : Until P R x y)
    (next : ∀ a, Until P R (f a) (g a)) : Until P R (x >>= f) (y >>= g) := by
  refine ⟨h.forward.bind fun a ↦ (next a).forward, fun w w' worlds done holds ↦ ?_⟩
  cases ends : x w with
  | ok a u =>
    have more : (x >>= f) w = f a u := bind_of_ok ends
    have first := h.ends worlds (by simp [result_of_ok ends])
      (by
        rw [last_of_ok ends]
        rw [last, more] at holds
        exact lapses ((next a).forward u) holds)
    rw [ends] at first
    generalize other : y w' = r at first
    cases first with
    | ok value worlds =>
      subst value
      rw [more, bind_of_ok other]
      rw [result, more] at done
      rw [last, more] at holds
      exact (next a).ends worlds done holds
  | error stop u =>
    have hno : (x >>= f) w = .error stop u := bind_of_error ends
    have early : stop ≠ .exhausted := fun eq ↦ done (by rw [result_of_error hno, eq])
    have first := h.ends worlds (by simpa [result_of_error ends] using early)
      (by rwa [last_of_error hno, ← last_of_error ends] at holds)
    rw [ends] at first
    generalize other : y w' = r at first
    cases first with
    | error worlds =>
      rw [hno, bind_of_error other]
      exact .error worlds

private theorem contain {x y : Run α} (recover : String → α) (h : Until P R x y) :
    Until P R (x.contain recover) (y.contain recover) := by
  refine ⟨h.forward.contain recover, fun w w' worlds done holds ↦ ?_⟩
  have first (notYet : x.result w ≠ .error .exhausted) (still : P (x.last w)) :=
    h.ends worlds notYet still
  unfold Run.contain result last at *
  cases ends : x w with
  | ok a u =>
    simp only [ends] at first done holds ⊢
    have first := first (by simp) holds
    generalize y w' = r at first ⊢
    cases first with
    | ok value worlds => exact .ok value worlds
  | error stop u =>
    cases stop with
    | exhausted =>
      simp only [ends] at done
      exact absurd rfl done
    | fault message =>
      simp only [ends] at first done holds ⊢
      have first := first (by simp) holds
      generalize y w' = r at first ⊢
      cases first with
      | error worlds => exact .ok rfl worlds

private theorem emit {e e' : Event} (deep : e.Beneath 0)
    (keeps : ∀ w w', R w w' →
      R { w with trace := w.trace ++ [e] } { w' with trace := w'.trace ++ [e'] }) :
    Until P R (emit e) (emit e') :=
  ⟨.emit deep, fun _ _ worlds _ _ ↦ .ok rfl (keeps _ _ worlds)⟩

end Until

end Run

/-- The comparison of runs as long as something holds. -/
def Comparison.until {P : World → Prop} {R : World → World → Prop} (lapses : Lapses P)
    (plain : ∀ e : Event, e.isPlain → ∀ w w', R w w' →
      R { w with trace := w.trace ++ [e] } { w' with trace := w'.trace ++ [e] }) : Comparison where
  Rel := Until P R
  pure := .pure
  fault message := .throw (.fault message)
  bind := .bind lapses
  contain := .contain
  emit := fun {e} h ↦ by
    refine Until.emit ?_ (plain e h)
    cases e with
    | returned => contradiction
    | _ => trivial

/-! ## Worlds with and without hooks -/

/-- Worlds that differ in nothing but what a map makes of the events since the start, which have no
hooks among them. -/
structure World.Hooked (m : Event → List Event) (start : List Event) (w w' : World) : Prop where
  cache : w'.cache = w.cache
  clock : w'.clock = w.clock
  trace : ∃ events, w'.trace = start ++ events ∧ w.trace = start ++ events.flatMap m ∧
    ∀ e ∈ events, e.isHook = false

/-- A map that leaves the events as they are that do not tell how deep they lie. -/
structure Event.Keeps (m : Event → List Event) : Prop where
  plain : ∀ e : Event, e.isPlain → m e = [e]
  parsed : ∀ text, m (.parsed text) = [.parsed text]
  noted : ∀ cursor cancelled, m (.noted cursor cancelled) = [.noted cursor cancelled]

private theorem Event.keeps_boxed : Event.Keeps Event.boxed where
  plain e h := by
    cases e with
    | error | debug | filled | asked | called => rfl
    | _ => contradiction
  parsed _ := rfl
  noted _ _ := rfl

private theorem Event.keeps_singleton :
    Event.Keeps fun e ↦ [e] := ⟨fun _ _ ↦ rfl, fun _ ↦ rfl, fun _ _ ↦ rfl⟩

section

variable {P : World → Prop} {m : Event → List Event} {start : List Event}

namespace World.Hooked

variable {w w' : World}

private theorem add (h : World.Hooked m start w w') {e : Event} (plain : e.isHook = false)
    {events : List Event} (eq : m e = events) :
    World.Hooked m start { w with trace := w.trace ++ events }
      { w' with trace := w'.trace ++ [e] } := by
  obtain ⟨before, inline, boxed, hno⟩ := h.trace
  refine ⟨h.cache, h.clock, before ++ [e], ?_, ?_, fun e' mem ↦ ?_⟩
  · simp [inline]
  · simp [boxed, eq]
  · rcases List.mem_append.1 mem with mem | mem
    · exact hno e' mem
    · rwa [List.mem_singleton.1 mem]

private theorem setClock (h : World.Hooked m start w w') (clock : Nat) :
    World.Hooked m start { w with clock } { w' with clock } :=
  ⟨h.cache, rfl, h.trace⟩

end World.Hooked

namespace Run.Until

variable {α β : Type}

private theorem parse {text : String} (keeps : Event.Keeps m) {f g : Shared → Run α}
    (next : ∀ shared shared' : Shared, shared'.parsed = shared.parsed →
      Until P (World.Hooked m start) (f shared) (g shared')) :
    Until P (World.Hooked m start) (Run.parse text >>= f) (Run.parse text >>= g) := by
  have same (shared : Shared) := next shared shared rfl
  refine ⟨(Leaves.parse trivial).bind fun shared ↦ (same shared).forward,
    fun w w' worlds done holds ↦ ?_⟩
  have added := worlds.add rfl (keeps.parsed text)
  change EndsAlike _ _
    (f (w.cache.getOrParse text).1
      { w with trace := w.trace ++ [.parsed text], cache := (w.cache.getOrParse text).2 })
    (g (w'.cache.getOrParse text).1
      { w' with trace := w'.trace ++ [.parsed text], cache := (w'.cache.getOrParse text).2 })
  rw [worlds.cache]
  exact (same _).ends ⟨rfl, added.clock, added.trace⟩ done holds

/-- A look at the clock. -/
theorem clock {f g : World → Run α}
    (h : ∀ w w' : World, w'.clock = w.clock → Until P (World.Hooked m start) (f w) (g w')) :
    Until P (World.Hooked m start) (get >>= f) (get >>= g) := by
  refine ⟨Leaves.get.bind fun w ↦ (h w w rfl).forward, fun w w' worlds done holds ↦ ?_⟩
  exact (h w w' worlds.clock).ends worlds done holds

private theorem event {e e' : Event} (deep : e.Beneath 0) (plain : e'.isHook = false)
    (eq : m e' = [e]) :
    Until P (World.Hooked m start) (Run.emit e) (Run.emit e') :=
  .emit deep fun _ _ worlds ↦ worlds.add plain eq

private theorem setClock (g : World → Nat) (later : ∀ w, w.clock ≤ g w)
    (same : ∀ w w', World.Hooked m start w w' → g w' = g w) :
    Until P (World.Hooked m start) (modify fun w ↦ { w with clock := g w })
      (modify fun w ↦ { w with clock := g w }) := by
  refine ⟨.setClock later, fun w w' worlds _ _ ↦ .ok rfl ?_⟩
  dsimp only
  rw [same w w' worlds]
  exact worlds.setClock _

end Run.Until

private theorem Event.isHook_of_isPlain {e : Event} (h : e.isPlain) : e.isHook = false := by
  cases e with
  | before | after => contradiction
  | _ => rfl

/-- The comparison of a run with hooks with one without. -/
def Comparison.hooked (lapses : Lapses P) (keeps : Event.Keeps m) (start : List Event) :
    Comparison :=
  .until (P := P) (R := World.Hooked m start) lapses fun e plain _ _ worlds ↦
    worlds.add (Event.isHook_of_isPlain plain) (keeps.plain e plain)

variable {env env' : Env} {fill fill' : Scope → String → Run Value}

/-- The frames of two runs in one of which time may be limited. Handlers are answered alike, but for
how deep they lie. -/
theorem Frame.compared_hooked (lapses : Lapses P) (keeps : Event.Keeps m) {f f' : Frame}
    {asks : Bool}
    (env : f'.env = f.env.boxing asks) (chain : f'.chain = f.chain)
    (handlers : f.env.registry.AsksOnly (· ≠ .depth))
    (passed? : Until P (World.Hooked m start) f.passed? f'.passed?)
    (awaitCancel : Until P (World.Hooked m start) f.awaitCancel f'.awaitCancel)
    (returned : ∀ callee gave cancelled, m (.returned callee f'.scope.depth gave cancelled) =
      [.returned callee f.scope.depth gave cancelled]) (deep : 0 < f.scope.depth)
    (fill : ∀ text, Until P (World.Hooked m start) (f.fill text) (f'.fill text)) :
    Frame.Compared (.hooked lapses keeps start) (· ≠ .depth) f f' where
  registry := env ▸ .refl _
  handlers := handlers
  chain := chain
  passed? := passed?
  answer p q other := by
    have context : f'.env.context = f.env.context := by rw [env]; rfl
    have host : f'.env.host.answer = f.env.host.answer := by
      rw [env, Env.answer_boxing]
    have cursor : f'.cursor p = f.cursor p := by rw [Frame.cursor, Frame.cursor, chain]
    cases q with
    | depth => contradiction
    | fill text => exact .bind lapses (fill text) fun _ ↦ .pure _
    | elapse nanos =>
      refine .bind lapses (.setClock _ (fun w ↦ Nat.le_add_right _ _) ?_) fun _ ↦ .pure _
      exact fun w w' worlds ↦ congrArg (· + nanos) worlds.clock
    | awaitCancel => exact .bind lapses awaitCancel fun _ ↦ .pure _
    | note =>
      refine .bind lapses passed? fun passed ↦ .bind lapses ?_ fun _ ↦ .pure _
      rw [cursor]
      exact .event trivial rfl (keeps.noted _ _)
    | cursor | fulfill | seem | lackParam | param | host | context | cancelled =>
      exact Frame.answer_compared chain context host passed? (fun raw _ ↦ fill raw) p _ rfl
  returned callee gave cancelled := .event deep rfl (returned callee gave cancelled)

/-- The marks at the two ends of a resolution. -/
theorem Run.Until.marked (lapses : Lapses P) {α : Type} {x y : Run α} {depth depth' : Nat}
    (began : m (.began depth') = [.began depth])
    (ended : ∀ start stop, m (.ended depth' start stop) = [.ended depth start stop])
    (h : Until P (World.Hooked m start) x y) :
    Until P (World.Hooked m start) (Run.marked depth x) (Run.marked depth' y) := by
  have first : Until P (World.Hooked m start) (Run.emit (.began depth))
    (Run.emit (.began depth')) :=
    .event trivial rfl began
  have last (t t' : Nat) : Until P (World.Hooked m start) (Run.emit (.ended depth t t'))
      (Run.emit (.ended depth' t t')) := .event trivial rfl (ended t t')
  refine .clock fun w w' start ↦ .bind lapses first fun _ ↦ .bind lapses h fun a ↦ ?_
  refine .clock fun u u' stop ↦ ?_
  rw [start, stop]
  exact .bind lapses (last _ _) fun _ ↦ .pure _

/-! ## Resolutions that begin no job -/

/-- A scope with a time limit that has not passed, and one without; or two with the same. -/
def Scope.Spared (P : World → Prop) (s s' : Scope) : Prop :=
  s'.token = s.token ∨
    s'.token = none ∧ ∀ token, s.token = some token → ∀ w, P w → w.clock < token.deadline

namespace Scope.Spared

variable {f f' : Frame}

private theorem passed? (h : Scope.Spared P f.scope f'.scope) :
    Until P (World.Hooked m start) f.passed? f'.passed? := by
  refine ⟨Frame.passed?_leaves _, fun w w' worlds _ holds ↦ ?_⟩
  change EndsAlike _ _ (.ok (f.scope.passed? w.clock) w) (.ok (f'.scope.passed? w'.clock) w')
  refine .ok ?_ worlds
  rw [worlds.clock]
  unfold Scope.passed?
  rcases h with same | ⟨hno, early⟩
  · rw [same]
  · rw [hno]
    cases found : f.scope.token with
    | none => rfl
    | some token => exact if_neg (Nat.not_le.2 (early token found w holds))

private theorem awaitCancel (h : Scope.Spared P f.scope f'.scope) :
    Until P (World.Hooked m start) f.awaitCancel f'.awaitCancel := by
  unfold Frame.awaitCancel
  rcases h with same | ⟨hno, early⟩
  · rw [same]
    cases f.scope.token with
    | none => exact .pure ()
    | some token =>
      refine .setClock _ (fun w ↦ Nat.le_max_left _ _) fun w w' worlds ↦ ?_
      rw [worlds.clock]
  · rw [hno]
    cases found : f.scope.token with
    | none => exact .pure ()
    | some token =>
      -- Who waits until time has run out does not end before.
      refine ⟨.setClock fun w ↦ Nat.le_max_left _ _, fun w w' _ _ holds ↦ ?_⟩
      exact absurd (early token found _ holds) (Nat.not_lt.2 (Nat.le_max_right _ _))

end Scope.Spared

namespace Env

variable {s s' : Scope} {chain : Chain}

private theorem resolveInline_hooked (lapses : Lapses P) (keeps : Event.Keeps m)
    (handlers : env.registry.AsksOnly (· ≠ .depth)) (spared : Scope.Spared P s s')
    (returned : ∀ callee gave cancelled, m (.returned callee (s'.depth + 1) gave cancelled) =
      [.returned callee (s.depth + 1) gave cancelled])
    (fills : ∀ text, Until P (World.Hooked m start) (fill s.deeper text) (fill' s'.deeper text)) :
    Until P (World.Hooked m start) ((env.boxing true).resolveInline fill s chain)
      ((env.boxing false).resolveInline fill' s' chain) := by
  have deeper : Scope.Spared P s.deeper s'.deeper := spared
  have frames : Frame.Compared (.hooked lapses keeps start) (· ≠ .depth)
      ⟨env.boxing true, s.deeper, fill s.deeper, chain⟩
      ⟨env.boxing false, s'.deeper, fill' s'.deeper, chain⟩ :=
    Frame.compared_hooked lapses keeps rfl rfl handlers deeper.passed? deeper.awaitCancel returned
      (Nat.succ_pos _) fills
  exact resolveInline_compared frames

/-- Where no job begins, a chain is resolved inline whether or not the host asks for more. -/
theorem resolve_hooked (lapses : Lapses P) (hno : ∀ limit, env.context.timeLimit = .within limit →
      s.depth ≠ 0) (began : m (.began s'.depth) = [.began s.depth])
    (ended : ∀ start stop, m (.ended s'.depth start stop) = [.ended s.depth start stop])
    (inline : Until P (World.Hooked m start) ((env.boxing true).resolveInline fill s chain)
      ((env.boxing false).resolveInline fill' s' chain)) :
    Until P (World.Hooked m start) ((env.boxing true).resolve fill s chain)
      ((env.boxing false).resolve fill' s' chain) := by
  refine Until.marked lapses began ended ?_
  have context (asks : Bool) : (env.boxing asks).context = env.context := rfl
  unfold resolveTimed
  rw [context, context]
  cases limits : env.context.timeLimit with
  | unlimited => exact inline
  | unrepresentable => exact .throw _
  | within limit =>
    dsimp only
    rw [if_neg fun h ↦ hno limit limits h.1, if_neg fun h ↦ Bool.false_ne_true h.2]
    exact inline

private theorem fillText_hooked (lapses : Lapses P) (keeps : Event.Keeps m)
    (resolve : ∀ chain, Until P (World.Hooked m start) ((env.boxing true).resolve fill s chain)
      ((env.boxing false).resolve fill' s' chain))
    (fills : ∀ text, Until P (World.Hooked m start) (fill s text) (fill' s' text)) (text : String) :
    Until P (World.Hooked m start) ((env.boxing true).fillText fill s text)
      ((env.boxing false).fillText fill' s' text) := by
  have context : (env.boxing false).context = (env.boxing true).context := rfl
  have readTag (tag : Tag) : Until P (World.Hooked m start) ((env.boxing true).readTag fill s tag)
      ((env.boxing false).readTag fill' s' tag) :=
    readTag_compared (C := Comparison.hooked lapses keeps start) (.of_context context)
      (resolve tag.chain) fun text _ ↦ fills text
  exact fillText_compared (C := Comparison.hooked lapses keeps start) (.of_context context) text
    (fun _ ↦ True) (fun next ↦ .parse keeps fun a b same ↦ next a b same trivial)
    fun _ _ tag _ ↦ readTag tag

/-- Without a time limit, a host that asks for it to be kept changes nothing. -/
theorem fillWithin_unlimited (handlers : env.registry.AsksOnly (· ≠ .depth))
    (hno : ∀ limit, env.context.timeLimit ≠ .within limit) (levels : Nat) (s : Scope)
    (text : String) :
    Until (fun _ ↦ True) (World.Hooked (fun e ↦ [e]) start)
      ((env.boxing true).fillWithin levels s text)
      ((env.boxing false).fillWithin levels s text) := by
  have lapses : Lapses fun _ ↦ True := fun _ _ _ _ ↦ trivial
  induction levels generalizing s text with
  | zero => exact .throw _
  | succ levels ih =>
    refine fillText_hooked lapses Event.keeps_singleton (fun chain ↦ ?_) (ih s) text
    refine resolve_hooked lapses (fun limit within ↦ absurd within (hno limit)) rfl
      (fun _ _ ↦ rfl) ?_
    exact resolveInline_hooked lapses Event.keeps_singleton handlers (.inl rfl) (fun _ _ _ ↦ rfl)
      (ih s.deeper)

private theorem lapses_before (deadline : Nat) : Lapses fun w ↦ w.clock < deadline :=
  fun _ _ follows before ↦ Nat.lt_of_le_of_lt follows.clock before

/-- In a job that has time left, what is filled is what is filled without one. -/
theorem fillWithin_inJob (handlers : env.registry.AsksOnly (· ≠ .depth)) (levels : Nat)
    (token : Token) (depth : Nat) (text : String) :
    Until (fun w ↦ w.clock < token.deadline) (World.Hooked Event.boxed start)
      ((env.boxing true).fillWithin levels ⟨depth + 2, some token⟩ text)
      ((env.boxing false).fillWithin levels ⟨depth + 1, none⟩ text) := by
  have lapses := lapses_before token.deadline
  induction levels generalizing depth text with
  | zero => exact .throw _
  | succ levels ih =>
    refine fillText_hooked lapses Event.keeps_boxed (fun chain ↦ ?_) (ih depth) text
    refine resolve_hooked lapses (fun _ _ ↦ Nat.succ_ne_zero _) rfl (fun _ _ ↦ rfl) ?_
    refine resolveInline_hooked lapses Event.keeps_boxed handlers (.inr ⟨rfl, ?_⟩) (fun _ _ _ ↦ rfl)
      (ih (depth + 1))
    rintro _ ⟨⟩ w before
    exact before

end Env

/-! ## Resolutions that are jobs -/

/-- Whether the resolutions that have begun alone since the start have ended before the limit had
passed. -/
def World.Punctual (limit : Limit) (start : List Event) (w : World) : Prop :=
  ∀ e ∈ w.trace.drop start.length, e.isPunctual limit

private theorem World.lapses_punctual (limit : Limit) (start : List Event) :
    Lapses (World.Punctual limit start) := by
  intro w w' follows punctual e mem
  obtain ⟨events, eq, -⟩ := follows.trace
  apply punctual
  rw [eq, List.drop_append]
  exact List.mem_append_left _ mem

namespace Env

variable {chain : Chain} {limit : Limit}

private theorem resolve_boxing_true (within : env.context.timeLimit = .within limit) :
    (env.boxing true).resolve fill {} chain =
      Run.marked 0 ((env.boxing true).resolveGuarded fill limit chain) := by
  have limits : (env.boxing true).context.timeLimit = .within limit := within
  rw [resolve, resolveTimed, limits]
  exact congrArg _ (if_pos ⟨rfl, rfl⟩)

private theorem resolve_boxing_false (within : env.context.timeLimit = .within limit) :
    (env.boxing false).resolve fill {} chain =
      Run.marked 0 ((env.boxing false).resolveInline fill {} chain) := by
  have limits : (env.boxing false).context.timeLimit = .within limit := within
  rw [resolve, resolveTimed, limits]
  exact congrArg _ (if_neg fun h ↦ Bool.false_ne_true h.2)

/-- A job that ends before its limit has passed comes to what it would have come to without one,
with the two hooks around it. -/
theorem resolve_job (within : env.context.timeLimit = .within limit)
    (forward : ((env.boxing true).resolve fill {} chain).Beneath 0)
    (inline : ∀ clock, Until (fun w ↦ w.clock < clock + limit.nanos)
      (World.Hooked Event.boxed start)
      ((env.boxing true).resolveInline fill (.ofJob limit clock) chain)
      ((env.boxing false).resolveInline fill' {} chain)) :
    Until (World.Punctual limit start) (World.Hooked Event.boxed start)
      ((env.boxing true).resolve fill {} chain) ((env.boxing false).resolve fill' {} chain) := by
  refine ⟨forward, fun w w' worlds done punctual ↦ ?_⟩
  rw [resolve_boxing_true within] at done punctual ⊢
  rw [resolve_boxing_false within]
  have begun := worlds.add rfl (show Event.boxed (.began 0) = [.began 0] ++ [.before] from rfl)
  rw [← List.append_assoc] at begun
  have job := (inline w.clock).ends begun
  have after := (inline w.clock).forward { w with trace := w.trace ++ [.began 0] ++ [.before] }
  cases ends : (env.boxing true).resolveInline fill (.ofJob limit w.clock) chain
      { w with trace := w.trace ++ [.began 0] ++ [.before] } with
  | error stop u =>
    have whole := marked_of_error (resolveGuarded_of_error ends)
    rw [result_of_error whole, contain_ne_fault ends] at done
    exact absurd rfl done
  | ok outcome u =>
    have whole := marked_of_ok (resolveGuarded_of_ok ends)
    rw [last_of_ok ends] at after job
    rw [last_of_ok whole] at punctual
    -- The mark at the end of the resolution is in what was added since the start, so that the job
    -- was in time.
    have time : u.clock < w.clock + limit.nanos := by
      obtain ⟨_, -, before, -⟩ := begun.trace
      obtain ⟨_, eq, -⟩ := after.trace
      have long : start.length ≤ (u.trace ++ [Event.after]).length := by
        rw [eq, before]
        simp only [List.length_append]
        omega
      refine of_decide_eq_true (punctual (.ended 0 w.clock u.clock) ?_)
      rw [List.drop_append_of_le_length long]
      exact List.mem_append_right _ (List.mem_singleton_self _)
    have alike := job (by rw [result_of_ok ends]; exact nofun) time
    rw [ends] at alike
    generalize other : (env.boxing false).resolveInline fill' {} chain _ = r at alike
    cases alike with
    | @ok a b _ u' value worlds' =>
      have ended := worlds'.add rfl (show Event.boxed (.ended 0 w.clock u.clock) =
        [.after] ++ [.ended 0 w.clock u.clock] from rfl)
      rw [← List.append_assoc, worlds'.clock] at ended
      rw [whole, marked_of_ok other, if_neg (Nat.not_le.2 time), value, worlds.clock, worlds'.clock]
      exact .ok rfl ended

/-- What is filled where no resolution is under way. -/
theorem fillWithin_jobs (handlers : env.registry.AsksOnly (· ≠ .depth))
    (within : env.context.timeLimit = .within limit) (levels : Nat) (text : String) :
    Until (World.Punctual limit start) (World.Hooked Event.boxed start)
      ((env.boxing true).fillWithin levels {} text)
      ((env.boxing false).fillWithin levels {} text) := by
  induction levels generalizing text with
  | zero => exact .throw _
  | succ levels ih =>
    refine fillText_hooked (World.lapses_punctual limit start) Event.keeps_boxed (fun chain ↦ ?_) ih
      text
    refine resolve_job within ((env.boxing true).resolve_beneath
      ((env.boxing true).fillWithin_beneath levels) {} chain) fun clock ↦ ?_
    refine resolveInline_hooked (lapses_before _) Event.keeps_boxed handlers (.inr ⟨rfl, ?_⟩)
      (fun _ _ _ ↦ rfl) (fillWithin_inJob handlers levels ⟨limit, clock + limit.nanos⟩ 0)
    rintro _ ⟨⟩ w before
    exact before

/-- As long as no job runs past its limit, nothing comes of the host asking for the limit but
hooks. -/
theorem fillValue_hooked (handlers : env.registry.AsksOnly (· ≠ .depth)) (levels : Nat)
    (text : String) (w : World)
    (done : ((env.boxing true).fillValue levels text).result w ≠ .error .exhausted)
    (punctual : ∀ limit, env.context.timeLimit = .within limit →
      ∀ e ∈ ((env.boxing true).fillValue levels text).adds w, e.isPunctual limit) :
    EndsAlike (World.Hooked env.hooked w.trace) Eq ((env.boxing true).fillValue levels text w)
      ((env.boxing false).fillValue levels text w) := by
  have start : World.Hooked env.hooked w.trace w w := ⟨rfl, rfl, [], by simp, by simp, by simp⟩
  unfold hooked at start ⊢
  cases limits : env.context.timeLimit with
  | within limit =>
    rw [limits] at start
    exact (fillWithin_jobs handlers limits levels text).ends start done (punctual limit limits)
  | unlimited | unrepresentable =>
    rw [limits] at start
    refine (fillWithin_unlimited handlers (fun limit within ↦ ?_) levels {} text).ends start done
      trivial
    rw [limits] at within
    contradiction

end Env

end

private theorem Event.filter_report_boxed (e : Event) :
    e.boxed.filter Event.isReport = [e].filter Event.isReport := by
  cases e with
  | began depth => cases depth <;> rfl
  | ended depth => cases depth <;> rfl
  | _ => rfl

private theorem Event.filter_report_flatMap (env : Env) (events : List Event) :
    (events.flatMap env.hooked).filter Event.isReport = events.filter Event.isReport := by
  have each (e : Event) : (env.hooked e).filter Event.isReport = [e].filter Event.isReport := by
    unfold Env.hooked
    cases env.context.timeLimit with
    | within limit => exact filter_report_boxed e
    | unlimited | unrepresentable => rfl
  induction events with
  | nil => rfl
  | cons e rest ih =>
    rw [List.flatMap_cons, List.filter_append, each, ih, ← List.filter_append]
    rfl

/-- As long as no job runs past its limit, a text comes to the same value, or the same breakdown,
whether or not the host asks for the time limit, and the host sees the same reports in the same
order. All that differs is that where there is a limit and the host asks for it, each resolution of
which no other is under way has one hook at its beginning and one at its end; no other has any. -/
theorem Env.fillValue_boxing (env : Env) (handlers : env.registry.AsksOnly (· ≠ .depth))
    (levels : Nat) (text : String) (w : World)
    (done : ((env.boxing true).fillValue levels text).result w ≠ .error .exhausted)
    (punctual : ∀ limit, env.context.timeLimit = .within limit →
      ∀ e ∈ ((env.boxing true).fillValue levels text).adds w, e.isPunctual limit) :
    let boxed := (env.boxing true).fillValue levels text
    let inline := (env.boxing false).fillValue levels text
    boxed.result w = inline.result w ∧
      (boxed.adds w).filter Event.isReport = (inline.adds w).filter Event.isReport ∧
      boxed.adds w = (inline.adds w).flatMap env.hooked ∧
      (∀ e ∈ inline.adds w, e.isHook = false) ∧
      (boxed.last w).cache = (inline.last w).cache ∧
      (boxed.last w).clock = (inline.last w).clock := by
  intro boxed inline
  have ends : EndsAlike (World.Hooked env.hooked w.trace) Eq (boxed w) (inline w) :=
    fillValue_hooked handlers levels text w done punctual
  obtain ⟨events, added, hooked, hno⟩ := ends.last.trace
  have inlineAdds : inline.adds w = events := by
    rw [adds, added, List.drop_left]
  have boxedAdds : boxed.adds w = events.flatMap env.hooked := by
    rw [adds, hooked, List.drop_left]
  rw [inlineAdds, boxedAdds]
  exact ⟨ends.result_eq, Event.filter_report_flatMap env events, rfl, hno, ends.last.cache.symm,
    ends.last.clock.symm⟩

namespace Env

/-- A base that takes three nanoseconds before it fills its parameter, and one that breaks down. -/
def slowAndBroken : Registry :=
  .ofHistory [.base "slow" .element (.ask (.elapse 3) fun _ ↦ Handler.param 0),
    .base "broken" .element (.fault "broken")]

private theorem slowAndBroken_asksOnly : slowAndBroken.AsksOnly (· ≠ .depth) := by
  refine Registry.Satisfies.ofHistory ?_
  simp only [List.forall_mem_cons, List.not_mem_nil, false_implies, implies_true, and_true]
  exact ⟨⟨nofun, fun _ ↦ ⟨nofun, fun _ ↦ trivial⟩⟩, trivial⟩

/-- A tag in a parameter, a breakdown with an alternative, and a tag without a base: four
resolutions that begin alone, and one that does not. -/
theorem fillValue_boxing_nested :
    let env : Env := { registry := slowAndBroken, context := { debug := true } }
    let text := "<slow[<slow[x]>]> <broken||<slow[y]>> <none>"
    let boxed := (env.boxing true).fillValue 3 text
    let inline := (env.boxing false).fillValue 3 text
    boxed.result {} = inline.result {} ∧ (boxed.adds {}).countP Event.isHook = 8 ∧
      (inline.adds {}).countP Event.isHook = 0 ∧
      (boxed.adds {}).filter Event.isReport = (inline.adds {}).filter Event.isReport := by
  intro env text boxed inline
  have value : (boxed.result {}).isOk := by decide +kernel
  have done : boxed.result {} ≠ .error .exhausted := by
    intro stopped
    rw [stopped] at value
    contradiction
  have early : ∀ e ∈ boxed.adds {}, e.isPunctual ⟨10 ^ 10⟩ := by decide +kernel
  have punctual (limit : Limit) (within : env.context.timeLimit = .within limit) :
      ∀ e ∈ boxed.adds {}, e.isPunctual limit := by
    obtain rfl := TimeLimit.within.inj (TimeLimit.ofSeconds_default.symm.trans within)
    exact early
  obtain ⟨result, reports, -⟩ :=
    env.fillValue_boxing slowAndBroken_asksOnly 3 text {} done punctual
  exact ⟨result, by decide +kernel, by decide +kernel, reports⟩

end Env

end TextTags
