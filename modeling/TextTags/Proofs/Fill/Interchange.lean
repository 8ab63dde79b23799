import TextTags.Proofs.Fill.Comparison
import TextTags.Proofs.Registry.Order

/-!
# Environments that can be exchanged

Filling learns nothing of its registry but what it finds there under a name, and nothing of the
host's wish for a time limit but whether it holds in the context at hand. Environments that agree in
that fill every text by one and the same computation, and so do registries that were made in
different orders.
-/

namespace TextTags

/-- The comparison of computations with themselves. -/
def Comparison.same : Comparison where
  Rel x y := x = y
  pure _ := rfl
  fault _ := rfl
  bind first next := first ▸ bind_congr next
  contain recover h := congrArg (·.contain recover) h
  emit _ := rfl

namespace Env

/-- Environments in which the same is found, asked, reported and kept to. -/
structure Interchangeable (env env' : Env) : Prop where
  registry : env.registry.Agree env'.registry
  answer : env'.host.answer = env.host.answer
  context : env'.context = env.context
  timeBoxes : env'.host.timeBoxes env.context = env.host.timeBoxes env.context

variable {env env' : Env} {fill : Scope → String → Run Value} {s : Scope}

private theorem Interchangeable.compared (h : env.Interchangeable env') (f : Frame) :
    Frame.Compared .same (fun _ ↦ True) { f with env } { f with env := env' } where
  registry := h.registry
  handlers := Registry.asksOnly_of_forall (fun _ ↦ trivial) _
  chain := rfl
  passed? := rfl
  answer p q _ := by
    change Frame.answer { f with env } p q = Frame.answer { f with env := env' } p q
    cases q with
    | host lookup =>
      unfold Frame.answer Frame.askHost
      rw [h.answer]
    | context =>
      unfold Frame.answer
      rw [h.context]
    | _ => rfl
  returned _ _ _ := rfl

private theorem resolve_interchange (h : env.Interchangeable env') (chain : Chain) :
    env.resolve fill s chain = env'.resolve fill s chain := by
  have inline (s : Scope) : env.resolveInline fill s chain = env'.resolveInline fill s chain :=
    resolveInline_compared (h.compared ⟨env, s.deeper, fill s.deeper, chain⟩)
  have guarded (limit : Limit) :
      env.resolveGuarded fill limit chain = env'.resolveGuarded fill limit chain := by
    unfold resolveGuarded
    simp only [inline]
  unfold resolve resolveTimed
  simp only [h.context, h.timeBoxes, inline, guarded]

/-- What can be exchanged fills texts by the same computation. -/
theorem fillWithin_interchange (h : env.Interchangeable env') (levels : Nat) (s : Scope)
    (text : String) : env.fillWithin levels s text = env'.fillWithin levels s text := by
  induction levels generalizing s text with
  | zero => rfl
  | succ levels ih =>
    have fills : env'.fillWithin levels = env.fillWithin levels := by
      funext s text
      exact (ih s text).symm
    rw [fillWithin, fillWithin, fills]
    refine fillText_compared (C := Comparison.same) (.of_context h.context) text (fun _ ↦ True)
      (fun next ↦ bind_congr fun shared ↦ next shared shared rfl trivial) fun _ _ tag _ ↦ ?_
    exact readTag_compared (C := Comparison.same) (.of_context h.context)
      (resolve_interchange h tag.chain) fun _ _ ↦ rfl

end Env

namespace Registry

open Registration

/-- In whatever order a set of registrations is performed in which no name is registered twice,
chains are resolved and texts are filled by the same computation: with the same values, outcomes and
events from every world. The names that come near a key are those registered for the kind with an
arity that accepts the segment that look like the key, each once and in ascending order. -/
theorem ofHistory_perm {history history' : List Registration} (once : NoneTwice history)
    (perm : history.Perm history') (host : Host) (context : Context) :
    let env : Env := ⟨ofHistory history, host, context⟩
    let env' : Env := ⟨ofHistory history', host, context⟩
    (∀ levels s chain,
      env.resolve (env.fillWithin levels) s chain = env'.resolve (env'.fillWithin levels) s chain) ∧
    (∀ levels s text, env.fillWithin levels s text = env'.fillWithin levels s text) ∧
    ∀ kind key hasParam,
      env.registry.near kind key hasParam = env'.registry.near kind key hasParam ∧
      (env.registry.near kind key hasParam).Pairwise (· < ·) ∧
      ∀ name, name ∈ env.registry.near kind key hasParam ↔ ∃ names arity handler,
        .attributes kind names arity handler ∈ history ∧ name ∈ names.map Text.lower ∧
          arity.accepts hasParam ∧ Near.looksLike name key := by
  intro env env'
  have agree : env.registry.Agree env'.registry := agree_of_perm once perm
  have exchange : env.Interchangeable env' := ⟨agree, rfl, rfl, rfl⟩
  refine ⟨fun levels s chain ↦ ?_, fun levels s text ↦ ?_, fun kind key hasParam ↦ ?_⟩
  · have fills : env.fillWithin levels = env'.fillWithin levels := by
      funext s text
      exact Env.fillWithin_interchange exchange levels s text
    rw [fills]
    exact Env.resolve_interchange exchange chain
  · exact Env.fillWithin_interchange exchange levels s text
  · exact ⟨(agree.near kind key hasParam).symm, near_ascending (keyed_ofHistory history),
      fun name ↦ mem_near_ofHistory once⟩

/-- Registrations of each sort, under names that are much alike. -/
def alikeNames : List Registration :=
  [ .base "word" .element (.done (some (.element "one"))),
    .attributes .element ["Part", "parts"] .optional fun v => .done (some v),
    .attributes .element ["port"] .required fun _ => .done none,
    .attributes .list ["party"] .none fun v => .done (some v),
    .fallback .element fun _ => .done none,
    .universal "part" .none fun v => .done (some v) ]

/-- A chain halts at a name that only lists have, and what comes near it among the attributes of
elements does so however they were registered. -/
theorem ofHistory_perm_reversed :
    let env : Env := ⟨ofHistory alikeNames, {}, { showErrors := false }⟩
    let env' : Env := ⟨ofHistory alikeNames.reverse, {}, { showErrors := false }⟩
    let text := "<word.party[x]>"
    NoneTwice alikeNames ∧ alikeNames.Perm alikeNames.reverse ∧
      env.fillValue 2 text = env'.fillValue 2 text ∧
      ((env.fillValue 2 text).result {}).toOption.map Value.identity = some text ∧
      "parts" ∈ env'.registry.near .element "party" true := by
  intro env env' text
  have once : NoneTwice alikeNames := by
    unfold NoneTwice
    decide +kernel
  have perm : alikeNames.Perm alikeNames.reverse := (List.reverse_perm _).symm
  obtain ⟨-, fills, near⟩ := ofHistory_perm once perm {} { showErrors := false }
  obtain ⟨same, -, spelled⟩ := near .element "party" true
  refine ⟨once, perm, fills 2 {} text, by decide +kernel, ?_⟩
  rw [← same, spelled]
  have listed : Registration.attributes .element ["Part", "parts"] .optional
      (fun v ↦ .done (some v)) ∈ alikeNames := by
    simp [alikeNames]
  exact ⟨_, _, _, listed, by decide +kernel, rfl, by decide +kernel⟩

end Registry

end TextTags
