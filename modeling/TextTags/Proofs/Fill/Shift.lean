import TextTags.Proofs.Cache
import TextTags.Proofs.Fill.Comparison

/-!
# Filling does not depend on the world

What a text is filled with depends neither on the events so far, nor on what the cache holds, nor on
the reading of the clock, as long as every time limit leaves as much time. Filling is compared with
itself from another world in which the clock is ahead by a fixed span.
-/

namespace TextTags

open Run

/-- Worlds whose caches hold what they should and whose clocks are apart by a fixed span. -/
structure World.Shifted (k k' : Nat) (w w' : World) : Prop where
  faithful : w.cache.Faithful
  faithful' : w'.cache.Faithful
  clock : w.clock + k = w'.clock + k'

/-- Scopes whose time limits leave as much time. -/
structure Scope.Shifted (k k' : Nat) (s s' : Scope) : Prop where
  depth : s'.depth = s.depth
  token : match s.token, s'.token with
    | none, none => True
    | some t, some t' => t'.limit = t.limit ∧ t.deadline + k = t'.deadline + k'
    | _, _ => False

/-- Frames that differ in how they fill texts and in when their time runs out, but not in what they
fill texts with nor in how much time is left. -/
structure Frame.Shifted (k k' : Nat) (f f' : Frame) : Prop where
  env : f'.env = f.env
  chain : f'.chain = f.chain
  scope : Scope.Shifted k k' f.scope f'.scope
  fill : ∀ text, Alike (World.Shifted k k') Eq (f.fill text) (f'.fill text)

section

variable {k k' : Nat}

namespace Run

private theorem alike_emit (e e' : Event) : Alike (World.Shifted k k') Eq (emit e) (emit e') :=
  Alike.modify fun _ _ h ↦ ⟨h.faithful, h.faithful', h.clock⟩

/-- The cache gives the same fragments in both worlds. -/
theorem alike_parse (text : String) :
    Alike (World.Shifted k k') (fun a b ↦ a.parsed = b.parsed) (Run.parse text)
    (Run.parse text) := by
  intro w w' worlds
  have same : (w.cache.getOrParse text).1.parsed = (w'.cache.getOrParse text).1.parsed := by
    rw [Cache.parsed_getOrParse worlds.faithful, Cache.parsed_getOrParse worlds.faithful']
  exact .ok same ⟨worlds.faithful.getOrParse text, worlds.faithful'.getOrParse text, worlds.clock⟩

/-- Cutting a text only gives its fragments. -/
theorem alike_parse_left {γ δ : Type} {W : γ → δ → Prop} {text : String} {f : Shared → Run γ}
    {y : Run δ} (next : ∀ shared : Shared, shared.parsed = Parsed.ofText text →
      Alike (World.Shifted k k') W (f shared) y) :
    Alike (World.Shifted k k') W (Run.parse text >>= f) y := by
  intro w w' worlds
  exact next _ (Cache.parsed_getOrParse worlds.faithful text)
    ⟨worlds.faithful.getOrParse text, worlds.faithful', worlds.clock⟩

end Run

/-- The comparison of runs from worlds that are shifted. -/
def Comparison.shifted (k k' : Nat) : Comparison :=
  .alike (World.Shifted k k') fun e _ ↦ alike_emit e e

private theorem Scope.Shifted.passed?_eq {s s' : Scope} (h : Scope.Shifted k k' s s') {w w' : World}
    (worlds : World.Shifted k k' w w') : s'.passed? w'.clock = s.passed? w.clock := by
  have clocks := worlds.clock
  have tokens := h.token
  unfold Scope.passed?
  split at tokens
  · next hno hno' => rw [hno, hno']
  · next t t' hne hne' =>
    obtain ⟨limit, deadline⟩ := tokens
    have late : t'.deadline ≤ w'.clock ↔ t.deadline ≤ w.clock := by omega
    simp only [hne, hne', limit, late]
  · contradiction

private theorem Scope.Shifted.deeper {s s' : Scope} (h : Scope.Shifted k k' s s') :
    Scope.Shifted k k' s.deeper s'.deeper :=
  ⟨congrArg (· + 1) h.depth, h.token⟩

namespace Frame.Shifted

variable {f f' : Frame}

private theorem passed? (h : Frame.Shifted k k' f f') :
    Alike (World.Shifted k k') Eq f.passed? f'.passed? := by
  refine Alike.bind Alike.get fun w w' worlds ↦ Alike.pure ?_
  rw [h.scope.passed?_eq worlds]

private theorem awaitCancel (h : Frame.Shifted k k' f f') :
    Alike (World.Shifted k k') Eq f.awaitCancel f'.awaitCancel := by
  have tokens := h.scope.token
  unfold Frame.awaitCancel
  split at tokens
  · next hno hno' =>
    rw [hno, hno']
    exact Alike.pure rfl
  · next t t' hne hne' =>
    rw [hne, hne']
    refine Alike.modify fun w w' worlds ↦ ⟨worlds.faithful, worlds.faithful', ?_⟩
    have := worlds.clock
    have := tokens.2
    simp only
    omega
  · contradiction

/-- Handlers are answered the same, whatever they ask. -/
theorem compared (h : Frame.Shifted k k' f f') :
    Frame.Compared (.shifted k k') (fun _ ↦ True) f f' where
  registry := h.env ▸ .refl _
  handlers := Registry.asksOnly_of_forall (fun _ ↦ trivial) _
  chain := h.chain
  passed? := h.passed?
  answer p q _ := by
    have cursor : f'.cursor p = f.cursor p := by rw [Frame.cursor, Frame.cursor, h.chain]
    cases q with
    | fill text => exact (h.fill text).bind_eq fun _ ↦ Alike.pure rfl
    | depth => exact Alike.pure (by rw [h.scope.depth])
    | elapse nanos =>
      refine Alike.bind_eq (Alike.modify fun w w' worlds ↦ ?_) fun _ ↦ Alike.pure rfl
      have := worlds.clock
      exact ⟨worlds.faithful, worlds.faithful', by simp only; omega⟩
    | awaitCancel => exact h.awaitCancel.bind_eq fun _ ↦ Alike.pure rfl
    | note =>
      refine h.passed?.bind_eq fun _ ↦ ?_
      rw [cursor]
      exact (alike_emit _ _).bind_eq fun _ ↦ Alike.pure rfl
    | cursor | fulfill | seem | lackParam | param | host | context | cancelled =>
      exact Frame.answer_compared (C := .shifted k k') h.chain (by rw [h.env]) (by rw [h.env])
        h.passed? (fun raw _ ↦ h.fill raw) p _ rfl
  returned _ _ _ := by
    rw [h.scope.depth]
    exact alike_emit _ _

end Frame.Shifted

/-- Two ways to fill a text that give the same from scopes and worlds that are shifted. -/
def FillsShifted (k k' : Nat) (fill fill' : Scope → String → Run Value) : Prop :=
  ∀ ⦃s s' : Scope⦄, Scope.Shifted k k' s s' → ∀ text,
    Alike (World.Shifted k k') Eq (fill s text) (fill' s' text)

namespace Env

variable (env : Env) {fill fill' : Scope → String → Run Value}

private theorem resolveInline_shifted (h : FillsShifted k k' fill fill') {s s' : Scope}
    (scopes : Scope.Shifted k k' s s') (chain : Chain) :
    Alike (World.Shifted k k') Eq (env.resolveInline fill s chain)
      (env.resolveInline fill' s' chain) := by
  have frames : Frame.Shifted k k' ⟨env, s.deeper, fill s.deeper, chain⟩
      ⟨env, s'.deeper, fill' s'.deeper, chain⟩ := ⟨rfl, rfl, scopes.deeper, h scopes.deeper⟩
  exact resolveInline_compared frames.compared

private theorem resolveGuarded_shifted (h : FillsShifted k k' fill fill') (limit : Limit)
    (chain : Chain) :
    Alike (World.Shifted k k') Eq (env.resolveGuarded fill limit chain)
      (env.resolveGuarded fill' limit chain) := by
  refine Alike.get.bind fun w w' worlds ↦ ?_
  have scopes : Scope.Shifted k k' (.ofJob limit w.clock) (.ofJob limit w'.clock) := by
    refine ⟨rfl, rfl, ?_⟩
    have := worlds.clock
    simp only
    omega
  refine (alike_emit _ _).bind_eq fun _ ↦ ?_
  refine (env.resolveInline_shifted h scopes chain).bind_eq fun outcome ↦ ?_
  refine (alike_emit _ _).bind_eq fun _ ↦ Alike.get.bind fun u u' ends ↦ ?_
  rw [scopes.passed?_eq ends]
  split <;> exact Alike.pure rfl

private theorem resolveTimed_shifted (h : FillsShifted k k' fill fill') {s s' : Scope}
    (scopes : Scope.Shifted k k' s s') (chain : Chain) :
    Alike (World.Shifted k k') Eq (env.resolveTimed fill s chain)
      (env.resolveTimed fill' s' chain) :=
  resolveTimed_compared (C := Comparison.shifted k k') scopes.depth
    (env.resolveInline_shifted h scopes chain) fun _ limit ↦
    env.resolveGuarded_shifted h limit chain

/-- A chain is resolved alike at every reading of the clock. -/
theorem resolve_shifted (h : FillsShifted k k' fill fill') {s s' : Scope}
    (scopes : Scope.Shifted k k' s s') (chain : Chain) :
    Alike (World.Shifted k k') Eq (env.resolve fill s chain) (env.resolve fill' s' chain) :=
  (env.resolveTimed_shifted h scopes chain).marked s.depth s'.depth alike_emit

/-- A tag is read alike at every reading of the clock. -/
theorem readTag_shifted (h : FillsShifted k k' fill fill') {s s' : Scope}
    (scopes : Scope.Shifted k k' s s') (tag : Tag) :
    Alike (World.Shifted k k') Eq (env.readTag fill s tag) (env.readTag fill' s' tag) :=
  readTag_compared (C := Comparison.shifted k k') (.of_context rfl)
    (env.resolve_shifted h scopes tag.chain) fun text _ ↦ h scopes text

/-- A fragment is filled alike at every reading of the clock. -/
theorem fillFragment_shifted (h : FillsShifted k k' fill fill') {s s' : Scope}
    (scopes : Scope.Shifted k k' s s') (fragment : Fragment) :
    Alike (World.Shifted k k') Eq (env.fillFragment fill s fragment)
      (env.fillFragment fill' s' fragment) :=
  fillFragment_compared (C := Comparison.shifted k k') (.of_context rfl) fun tag _ ↦
    env.readTag_shifted h scopes tag

/-- Fragments are filled alike at every reading of the clock. -/
theorem fillFragments_shifted (h : FillsShifted k k' fill fill') {s s' : Scope}
    (scopes : Scope.Shifted k k' s s') (fragments : List Fragment) :
    Alike (World.Shifted k k') Eq (env.fillFragments fill s fragments)
      (env.fillFragments fill' s' fragments) :=
  fillFragments_compared (C := Comparison.shifted k k') (.of_context rfl) fun tag _ ↦
    env.readTag_shifted h scopes tag

private theorem fillText_shifted (h : FillsShifted k k' fill fill') {s s' : Scope}
    (scopes : Scope.Shifted k k' s s') (text : String) :
    Alike (World.Shifted k k') Eq (env.fillText fill s text) (env.fillText fill' s' text) := by
  refine fillText_compared (C := Comparison.shifted k k') (.of_context rfl) text (fun _ ↦ True)
    (fun next ↦ ?_) fun _ _ tag _ ↦ env.readTag_shifted h scopes tag
  exact (alike_parse text).bind fun shared shared' same ↦ next shared shared' same.symm trivial

/-- Filling to any depth of nesting gives the same from shifted scopes and worlds. -/
theorem fillWithin_shifted (levels : Nat) :
    FillsShifted k k' (env.fillWithin levels) (env.fillWithin levels) := by
  induction levels with
  | zero => exact fun _ _ _ _ ↦ Alike.throw _
  | succ levels ih => exact fun _ _ scopes text ↦ env.fillText_shifted ih scopes text

end Env

end

namespace Run

variable {α β : Type}

/-- A computation that comes to the same from every world whose cache holds what it should. -/
def Steady (x : Run α) : Prop := ∀ k k', Alike (World.Shifted k k') Eq x x

/-- Two worlds of faithful caches differ by what their clocks read. -/
theorem shifted_of_faithful {w w' : World} (h : w.cache.Faithful) (h' : w'.cache.Faithful) :
    World.Shifted w'.clock w.clock w w' := ⟨h, h', Nat.add_comm _ _⟩

namespace Steady

variable {x : Run α} {w w' : World}

/-- A steady run gives the same in all worlds of faithful caches. -/
theorem result_eq (h : Steady x) (faithful : w.cache.Faithful) (faithful' : w'.cache.Faithful) :
    x.result w = x.result w' :=
  (h _ _).result_eq (shifted_of_faithful faithful faithful')

/-- The cache holds what it should when the computation has ended. -/
theorem faithful (h : Steady x) (start : w.cache.Faithful) {a : α} {last : World}
    (ends : x w = .ok a last) : last.cache.Faithful := by
  have same : World.Shifted 0 0 w w := ⟨start, start, rfl⟩
  have alike := h 0 0 same
  rw [ends] at alike
  cases alike with
  | ok _ worlds => exact worlds.faithful

/-- The second of two computations may start from any other world. -/
theorem result_bind (h : Steady x) {f : α → Run β} (next : ∀ a, Steady (f a))
    (start : w.cache.Faithful) {w₁ w₂ : World} (start₁ : w₁.cache.Faithful)
    (start₂ : w₂.cache.Faithful) :
    (x >>= f).result w = (do (f (← x.result w₁)).result w₂) := by
  rw [← h.result_eq start start₁]
  cases ends : x w with
  | ok a last =>
    rw [result, bind_of_ok ends, result_of_ok ends]
    exact (next a).result_eq (h.faithful start ends) start₂
  | error stop last =>
    rw [result_of_error (bind_of_error ends), result_of_error ends]
    rfl

end Steady

end Run

namespace Env

variable (env : Env)

/-- A text filled on its own comes to the same from every world. -/
theorem fillValue_steady (levels : Nat) (text : String) : Steady (env.fillValue levels text) :=
  fun _ _ ↦ env.fillWithin_shifted levels ⟨rfl, trivial⟩ text

/-- Filling a text to a text is steady. -/
theorem fillString_steady (levels : Nat) (text : String) : Steady (env.fillString levels text) :=
  fun k k' ↦ (env.fillValue_steady levels text k k').bind_eq fun _ ↦ Alike.pure rfl

end Env

end TextTags
