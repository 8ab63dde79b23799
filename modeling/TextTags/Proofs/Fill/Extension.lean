import TextTags.Host.Memory
import TextTags.Proofs.Core
import TextTags.Proofs.Fill.Comparison
import TextTags.Proofs.Registry.Additions
import TextTags.Proofs.Registry.Tables

/-!
# More to be found

A text that is filled without a halt is filled in the same way where more is registered under new
names. A chain that is fulfilled was led by what is found under names that are known, and by
fallbacks, which come before all that can be added for the values that have them.
-/

namespace TextTags

open Run

namespace Env

/-- The value of a tag. A chain that halts ends the fill. -/
def readStrictly (env : Env) (fill : Scope → String → Run Value) (scope : Scope) (tag : Tag) :
    Run Value := do
  match ← env.resolve fill scope tag.chain with
  | .fulfilled v _ =>
    env.reportFill tag v
    return v
  | .halted _ => throw .exhausted

/-- The text that a fragment is filled with, as long as no chain halts. -/
def fillFragmentStrictly (env : Env) (fill : Scope → String → Run Value) (scope : Scope) :
    Fragment → Run String
  | .literal text => return text
  | .tag tag => return (← env.readStrictly fill scope tag).identity
  | .issue message source => do
    env.report [.error message]
    return source

/-- The text that fragments are filled with, as long as no chain halts. -/
def fillFragmentsStrictly (env : Env) (fill : Scope → String → Run Value) (scope : Scope) :
    List Fragment → Run String
  | [] => return ""
  | fragment :: rest => do
    let first ← env.fillFragmentStrictly fill scope fragment
    let others ← env.fillFragmentsStrictly fill scope rest
    return first ++ others

/-- Fills a text as long as no chain halts. -/
def fillTextStrictly (env : Env) (fill : Scope → String → Run Value) (scope : Scope)
    (text : String) : Run Value := do
  if text = "" then return .element ""
  else
    let shared ← Run.parse text
    match shared.parsed.single? with
    | some tag => env.readStrictly fill scope tag
    | none => return .element (← env.fillFragmentsStrictly fill scope shared.parsed.fragments)

/-- Fills a text as long as no chain halts, and those nested in it in the same way. -/
def fillStrictly (env : Env) : Nat → Scope → String → Run Value
  | 0, _, _ => throw .exhausted
  | levels + 1, scope, text => env.fillTextStrictly (env.fillStrictly levels) scope text

/-- Whether a text is filled without a halt of any chain, be it nested in another. -/
def Unbroken (env : Env) (levels : Nat) (text : String) (w : World) : Prop :=
  (env.fillStrictly levels {} text).result w ≠ .error .exhausted

end Env

namespace Run

variable {α β : Type} {good : α → Prop} {good' : β → Prop} {x y : Run α} {f g : α → Run β}

/-- Whether a run ends in a breakdown or in a good value, and is not given up. -/
def Stands (good : α → Prop) : EStateM.Result Stop World α → Prop
  | .ok a _ => good a
  | .error stop _ => stop ≠ .exhausted

/-- Whether one run is the other wherever it stands. -/
def KeptBy (good : α → Prop) (x y : Run α) : Prop := ∀ w, Stands good (x w) → y w = x w

/-- Whether a run never stands. -/
def Fails (good : α → Prop) (x : Run α) : Prop := ∀ w, ¬Stands good (x w)

private theorem Fails.emit {e : Event} (h : Fails good x) : Fails good (Run.emit e >>= fun _ ↦ x) :=
  fun _ ↦ h _

private theorem Fails.get {f : World → Run α} (h : ∀ w, Fails good (f w)) :
    Fails good (MonadState.get >>= f) :=
  fun w ↦ h w w

private theorem stands_of_result {w : World} (h : x.result w ≠ .error .exhausted) :
    Stands (fun _ ↦ True) (x w) := by
  unfold result at h
  generalize x w = r at h ⊢
  cases r with
  | ok => trivial
  | error stop => exact fun same ↦ h (congrArg Except.error same)

namespace KeptBy

private theorem refl (x : Run α) : KeptBy good x x := fun _ _ ↦ rfl

private theorem of_fails (h : Fails good x) : KeptBy good x y := fun w stands ↦ (h w stands).elim

/-- After a value that is not good, all is lost already. -/
theorem bind (first : KeptBy good x y) (next : ∀ a, good a → KeptBy good' (f a) (g a))
    (lost : ∀ a, ¬good a → Fails good' (f a)) : KeptBy good' (x >>= f) (y >>= g) := by
  intro w stands
  cases ends : x w with
  | ok a u =>
    rw [bind_of_ok ends] at stands ⊢
    by_cases fine : good a
    · have same : y w = .ok a u := (first w (ends ▸ fine)).trans ends
      rw [bind_of_ok same]
      exact next a fine u stands
    · exact (lost a fine u stands).elim
  | error stop u =>
    rw [bind_of_error ends] at stands ⊢
    have same : y w = .error stop u := (first w (ends ▸ stands)).trans ends
    exact bind_of_error same

/-- A first step of which any value will do. -/
theorem bind_any (first : KeptBy (fun _ ↦ True) x y) (next : ∀ a, KeptBy good' (f a) (g a)) :
    KeptBy good' (x >>= f) (y >>= g) :=
  first.bind (fun a _ ↦ next a) fun _ bad ↦ (bad trivial).elim

private theorem contain (h : KeptBy good x y) (recover : String → α) :
    KeptBy good (x.contain recover) (y.contain recover) := by
  intro w stands
  unfold Run.contain at stands ⊢
  have same := h w
  cases ends : x w with
  | ok a u =>
    rw [ends] at stands same
    rw [same stands]
  | error stop u =>
    rw [ends] at stands same
    cases stop with
    | fault message => rw [same nofun]
    | exhausted => exact (stands rfl).elim

end KeptBy

end Run

/-- The comparison of runs one of which is the other unless it is given up. -/
def Congruence.kept : Congruence where
  Rel := KeptBy fun _ ↦ True
  pure _ := .refl _
  fault _ := .refl _
  bind := .bind_any
  contain recover h := h.contain recover

/-! ## Chains -/

/-- Whether an outcome is that of a chain all of whose segments are fulfilled. -/
def Outcome.IsFulfilled : Outcome → Prop
  | .fulfilled _ _ => True
  | .halted _ => False

namespace Frame

/-- The frame with another registry, in which texts are filled in another way. -/
def extended (f : Frame) (r' : Registry) (fill' : String → Run Value) : Frame :=
  { f with env := { f.env with registry := r' }, fill := fill' }

/-- Whether a step from one value to the next was made. -/
def Stepped : Except Halt Value × Progress → Prop
  | (.ok _, _) => True
  | (.error _, _) => False

variable {f : Frame} {r' : Registry} {fill' : String → Run Value}

@[simp]
theorem extended_cursor (p : Progress) : (f.extended r' fill').cursor p = f.cursor p := rfl

@[simp]
theorem extended_chain : (f.extended r' fill').chain = f.chain := rfl

@[simp]
theorem extended_registry : (f.extended r' fill').env.registry = r' := rfl

/-- Beyond the fallback, a name that is not known leads nowhere. -/
theorem applyShared_fails {v : Value} {s : Segment} (fresh : f.env.registry.Lacks s.key)
    (p : Progress) : Fails Stepped (f.applyShared v s p) := by
  unfold applyShared
  rw [fresh.universal?, fresh.attribute? .element, ite_self]
  exact fun _ stepped ↦ stepped

section

variable (more : f.env.registry.Extends r')
  (fills : ∀ text, KeptBy (fun _ ↦ True) (f.fill text) (fill' text))

include fills

private theorem answer_kept (p : Progress) (q : Query) :
    KeptBy (fun _ ↦ True) (f.answer p q) ((f.extended r' fill').answer p q) := by
  cases q with
  | param offset =>
    refine .bind_any (.bind_any (.refl f.passed?) fun passed ↦ ?_) fun _ ↦ .refl _
    cases passed with
    | some _ => exact .refl _
    | none =>
      unfold counting
      rw [extended_cursor, extended_chain]
      cases (f.cursor p).param? offset with
      | none => exact .refl _
      | some raw =>
        by_cases can : p.canCount offset f.chain.length
        · rw [if_pos can, if_pos can]
          exact .bind_any (fills raw) fun _ ↦ .refl _
        · rw [if_neg can, if_neg can]
          exact .refl _
  | fill text => exact .bind_any (fills text) fun _ ↦ .refl _
  | _ => exact .refl _

private theorem called_kept (handler : Handler (Option Value)) :
    CalledAlike .kept f (f.extended r' fill') handler := by
  have all : handler.AsksOnly fun _ ↦ True := Handler.asksOnly_of_forall (fun _ ↦ trivial) handler
  have run (p : Progress) : KeptBy (fun _ ↦ True) (f.run handler p)
      ((f.extended r' fill').run handler p) :=
    run_compared (C := .kept) (fun p q _ ↦ answer_kept fills p q) all p
  exact calledAlike_of_run (fun _ ↦ .refl _) run (.refl f.passed?) fun _ _ _ ↦ .refl _

/-- Only the names that come near may be others, and those are told by halts alone. -/
theorem apply_kept (callee : Callee) (attr : Attr) (v : Value) (kind : Kind) (p : Progress) :
    KeptBy Stepped (f.apply callee attr v kind p)
      ((f.extended r' fill').apply callee attr v kind p) := by
  unfold apply
  rw [extended_cursor, extended_chain]
  split
  · exact .refl _
  · refine .bind_any (called_kept fills _ callee p) fun (result, p) ↦ ?_
    cases result with
    | some next => exact .refl _
    | none => exact .of_fails fun _ stepped ↦ stepped

include more

private theorem tryFallback_kept (v : Value) (p : Progress) :
    KeptBy (fun _ ↦ True) (f.tryFallback v p) ((f.extended r' fill').tryFallback v p) := by
  unfold tryFallback
  rw [extended_registry, more.fallback?]
  split
  · exact called_kept fills _ _ p
  · exact .refl _

/-- A known name leads to the same attributes. -/
theorem applyShared_kept (v : Value) {s : Segment}
    (known : ¬f.env.registry.Lacks s.key) (p : Progress) :
    KeptBy Stepped (f.applyShared v s p) ((f.extended r' fill').applyShared v s p) := by
  unfold applyShared
  rw [extended_registry, more.universal? known, more.attribute? known]
  split
  · exact apply_kept fills _ _ _ _ _
  · split
    · exact apply_kept fills _ _ _ _ _
    · exact .of_fails fun _ stepped ↦ stepped

private theorem dispatch_kept (v : Value) (p : Progress) :
    KeptBy Stepped (f.dispatch v p) ((f.extended r' fill').dispatch v p) := by
  unfold dispatch
  rw [extended_cursor]
  cases (f.cursor p).segment? 0 with
  | none => exact .refl _
  | some s =>
    dsimp only
    by_cases known : ¬f.env.registry.Lacks s.key
    · rw [extended_registry, more.attribute? known]
      split
      · exact apply_kept fills _ _ _ _ _
      · refine .bind_any (tryFallback_kept more fills v p) fun (result, p) ↦ ?_
        cases result with
        | some next => exact .refl _
        | none => exact applyShared_kept more fills v known p
    · have fresh : f.env.registry.Lacks s.key := not_not.1 known
      rw [fresh.attribute? v.kind]
      by_cases has : f.env.registry.fallback? v.kind = none
      · -- Nothing but an addition could be meant.
        refine .of_fails ?_
        unfold tryFallback
        rw [has]
        exact applyShared_fails fresh p
      · rw [extended_registry, more.beside has, fresh.attribute?]
        refine .bind_any (tryFallback_kept more fills v p) fun (result, p) ↦ ?_
        cases result with
        | some next => exact .refl _
        | none => exact .of_fails (applyShared_fails fresh p)

private theorem walk_kept (steps : Nat) (v : Value)
    (p : Progress) :
    KeptBy Outcome.IsFulfilled (f.walk steps v p) ((f.extended r' fill').walk steps v p) := by
  induction steps generalizing v p with
  | zero => exact .refl _
  | succ steps ih =>
    unfold walk
    rw [extended_chain]
    split
    · exact .refl _
    · refine .bind_any (.refl f.passed?) fun passed ↦ ?_
      cases passed with
      | some limit => exact .refl _
      | none =>
        refine (dispatch_kept more fills v p).bind (fun next stepped ↦ ?_) fun next missed ↦ ?_
        · obtain ⟨result, p⟩ := next
          cases result with
          | error halt => exact stepped.elim
          | ok next =>
            refine .bind_any (.refl f.passed?) fun passed ↦ ?_
            cases passed with
            | some limit => exact .refl _
            | none => exact ih next _
        · obtain ⟨result, p⟩ := next
          cases result with
          | error halt => exact fun _ fulfilled ↦ fulfilled
          | ok next => exact (missed trivial).elim

private theorem runChain_kept :
    KeptBy Outcome.IsFulfilled f.runChain (f.extended r' fill').runChain := by
  unfold runChain
  dsimp only
  rw [extended_chain]
  cases found : f.env.registry.base? f.chain.root.key with
  | none => exact .of_fails fun _ fulfilled ↦ fulfilled
  | some base =>
    have known : ¬f.env.registry.Lacks f.chain.root.key := fun fresh ↦ by
      rw [fresh.base?] at found
      contradiction
    rw [extended_registry, more.base? known, found]
    refine .bind_any (called_kept fills _ _ {}) fun (result, p) ↦ ?_
    refine .bind_any (.refl f.passed?) fun passed ↦ ?_
    cases passed with
    | some limit => exact .refl _
    | none =>
      cases result with
      | none => exact .refl _
      | some v => exact walk_kept more fills _ v _

end

end Frame

/-! ## Texts -/

namespace Env

/-- The environment with another registry. -/
def extended (env : Env) (r' : Registry) : Env := { env with registry := r' }

@[simp]
theorem extended_context (env : Env) (r' : Registry) :
    (env.extended r').context = env.context := rfl

@[simp]
theorem extended_host (env : Env) (r' : Registry) : (env.extended r').host = env.host := rfl

variable {env : Env} {r' : Registry} {fill fill' : Scope → String → Run Value} {s : Scope}

section

variable (more : env.registry.Extends r')
  (fills : ∀ s text, KeptBy (fun _ ↦ True) (fill s text) (fill' s text))

include more fills

private theorem resolveInline_kept (chain : Chain) :
    KeptBy Outcome.IsFulfilled (env.resolveInline fill s chain)
      ((env.extended r').resolveInline fill' s chain) :=
  KeptBy.contain (Frame.runChain_kept more (fills s.deeper)) _

private theorem resolveGuarded_kept (limit : Limit) (chain : Chain) :
    KeptBy Outcome.IsFulfilled (env.resolveGuarded fill limit chain)
      ((env.extended r').resolveGuarded fill' limit chain) := by
  refine .bind_any (.refl _) fun start ↦ .bind_any (.refl _) fun _ ↦ ?_
  refine (resolveInline_kept more fills chain).bind (fun _ _ ↦ .refl _) fun outcome halted ↦ ?_
  refine .emit (.get fun stop ↦ ?_)
  cases (Scope.ofJob limit start.clock).passed? stop.clock with
  | some limit => exact fun _ fulfilled ↦ fulfilled
  | none => exact fun _ ↦ halted

private theorem resolve_kept (chain : Chain) :
    KeptBy Outcome.IsFulfilled (env.resolve fill s chain)
      ((env.extended r').resolve fill' s chain) := by
  have timed : KeptBy Outcome.IsFulfilled (env.resolveTimed fill s chain)
      ((env.extended r').resolveTimed fill' s chain) := by
    unfold resolveTimed
    rw [extended_context, extended_host]
    split
    · exact .refl _
    · exact resolveInline_kept more fills chain
    · split
      · exact resolveGuarded_kept more fills _ chain
      · exact resolveInline_kept more fills chain
  refine .bind_any (.refl _) fun start ↦ .bind_any (.refl _) fun _ ↦ ?_
  exact timed.bind (fun _ _ ↦ .refl _) fun _ halted _ ↦ halted

private theorem readTag_kept (tag : Tag) :
    KeptBy (fun _ ↦ True) (env.readStrictly fill s tag)
      ((env.extended r').readTag fill' s tag) := by
  refine (resolve_kept more fills tag.chain).bind (fun outcome fulfilled ↦ ?_)
    fun outcome halted ↦ ?_
  · cases outcome with
    | fulfilled v _ => exact .refl _
    | halted halt => exact fulfilled.elim
  · cases outcome with
    | fulfilled v _ => exact (halted trivial).elim
    | halted halt => exact fun _ stands ↦ stands rfl

private theorem fillFragment_kept (fragment : Fragment) :
    KeptBy (fun _ ↦ True) (env.fillFragmentStrictly fill s fragment)
      ((env.extended r').fillFragment fill' s fragment) := by
  cases fragment with
  | literal text => exact .refl _
  | tag tag => exact .bind_any (readTag_kept more fills tag) fun _ ↦ .refl _
  | issue message source => exact .refl _

private theorem fillFragments_kept (fragments : List Fragment) :
    KeptBy (fun _ ↦ True) (env.fillFragmentsStrictly fill s fragments)
      ((env.extended r').fillFragments fill' s fragments) := by
  induction fragments with
  | nil => exact .refl _
  | cons fragment rest ih =>
    exact .bind_any (fillFragment_kept more fills fragment) fun _ ↦ .bind_any ih fun _ ↦ .refl _

end

/-- A text that is filled without a halt is filled in the same way where more is to be found. -/
theorem fillWithin_kept (more : env.registry.Extends r') (levels : Nat) (s : Scope)
    (text : String) :
    KeptBy (fun _ ↦ True) (env.fillStrictly levels s text)
      ((env.extended r').fillWithin levels s text) := by
  induction levels generalizing s text with
  | zero => exact .refl _
  | succ levels ih =>
    unfold fillStrictly fillWithin fillTextStrictly fillText
    split
    · exact .refl _
    · refine .bind_any (.refl _) fun shared ↦ ?_
      cases shared.parsed.single? with
      | some tag => exact readTag_kept more ih tag
      | none => exact .bind_any (fillFragments_kept more ih _) fun _ ↦ .refl _

/-- To fill a text that is filled without a halt is to fill it as long as no chain halts. -/
theorem Unbroken.fillValue_eq {levels : Nat} {text : String} {w : World}
    (h : env.Unbroken levels text w) :
    env.fillValue levels text w = env.fillStrictly levels {} text w :=
  fillWithin_kept (.refl env.registry) levels {} text w (stands_of_result h)

/-- Whatever bases, attributes of all kinds and attributes of elements are registered with the core
under new names, a text that is filled without a halt is filled in the same way: with the same
value, the same events, and the same world after it. -/
theorem fillValue_additions (env : Env) (core : env.registry = .core)
    {additions : List Registration} (new : ∀ g ∈ additions, g.Adds .core) {levels : Nat}
    {text : String} {w : World} (unbroken : env.Unbroken levels text w) :
    (env.extended (additions.foldl Registry.register .core)).fillValue levels text w =
      env.fillValue levels text w := by
  have more : env.registry.Extends (additions.foldl Registry.register .core) := by
    rw [core]
    exact Registry.extends_foldl Registry.core_fallback?_element new
  rw [unbroken.fillValue_eq]
  exact fillWithin_kept more levels {} text w (stands_of_result unbroken)

/-- A base, an attribute of all kinds and one of elements, under a name that the core lacks. -/
def speedAdditions : List Registration :=
  [ .base "Speed" .element (.done (some (.element "light"))),
    .universal "speed" .none fun _ => .done (some (.element "none")),
    .attributes .element ["SPEED"] .none fun _ => .done (some (.element "high")) ]

private theorem adds_speedAdditions : ∀ g ∈ speedAdditions, g.Adds .core := by
  have keys : (∀ e ∈ Registry.core.bases, e.1 ≠ "speed") ∧
      (∀ e ∈ Registry.core.attributes, e.1.2 ≠ "speed") ∧
      ∀ e ∈ Registry.core.universals, e.1 ≠ "speed" := by
    rw [Registry.core_eq_tables]
    decide +kernel
  have lacking : Registry.core.Lacks "speed" := .of_keys keys.1 keys.2.1 keys.2.2
  have lowered : Text.lower "Speed" = "speed" ∧ Text.lower "speed" = "speed" ∧
      Text.lower "SPEED" = "speed" := by decide +kernel
  simp [speedAdditions, Registration.Adds, lowered, lacking]

/-- A field of an object is found before all of these, also where the object stands in a parameter,
while an element has come to have what it did not have. -/
theorem fillValue_additions_field :
    let car : Container := { name := "car", fields := [("speed", "90")] }
    let env : Env := { registry := .core, host := (({} : Memory).withContainer car).host }
    let env' := env.extended (speedAdditions.foldl Registry.register .core)
    let text := "<list[<custom[car].speed>|a].get[1].add[1]> and <custom[car].object_type>"
    env'.fillValue 80 text {} = env.fillValue 80 text {} ∧
      ((env.fillValue 80 text).result {}).toOption.map Value.identity = some "91 and Custom" ∧
      ((env'.fillValue 80 "<element[a].speed>").result {}).toOption.map Value.identity =
        some "high" := by
  rw [Registry.core_eq_tables]
  intro car env env' text
  have core : env.registry = .core := Registry.core_eq_tables.symm
  have gives : ((env.fillStrictly 80 {} text).result {}).toOption.map Value.identity =
      some "91 and Custom" := by decide +kernel
  have unbroken : env.Unbroken 80 text {} := by
    intro halted
    rw [halted] at gives
    contradiction
  refine ⟨?_, ?_, by decide +kernel⟩
  · have same := env.fillValue_additions core adds_speedAdditions unbroken
    rwa [Registry.core_eq_tables] at same
  · rw [result, unbroken.fillValue_eq]
    exact gives

end Env

end TextTags
