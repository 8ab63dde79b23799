import TextTags.Proofs.Fill.InTime
import TextTags.Proofs.Limit
import TextTags.Proofs.Registry.Tables

/-!
# What is reported does not matter

A caller may want to see failures and filled tags. What it wants to see is all that it sees of them,
and nothing else of what is filled depends on it: not even that the time limit is kept for those who
want to see every tag.
-/

namespace TextTags

open Run

/-- Whether a caller wants to see an event: failures and remarks, filled tags, or neither. -/
def Context.wants (c : Context) : Event → Bool
  | .error _ => c.showErrors
  | .debug _ => c.showErrors
  | .filled _ _ => c.debug
  | _ => true

namespace Env

/-- An environment whose caller has other diagnostic settings. -/
def reporting (env : Env) (debug showErrors : Bool) : Env :=
  { env with context := { env.context with debug, showErrors } }

private theorem akin_reporting (env : Env) (debug showErrors : Bool) :
    env.Akin (env.reporting debug showErrors) := ⟨rfl, rfl, rfl, rfl, rfl, rfl⟩

private theorem admits_wanted (env : Env) : env.Admits fun _ e ↦ env.context.wants e where
  above _ wanted := wanted
  neutral {_ e} neutral := by
    cases e with
    | error | debug | filled => contradiction
    | _ => rfl
  returned _ _ _ _ := rfl
  failures shown _ e failure := by
    cases e with
    | error | debug => exact shown
    | _ => contradiction
  filled wanted _ _ _ := wanted

/-- Whatever the registry, a caller sees only what it wants to see, from however deep it comes. -/
theorem fillWithin_wanted (env : Env) (levels : Nat) (s : Scope) (text : String) {w : World}
    {e : Event} (mem : e ∈ (env.fillWithin levels s text).adds w) : env.context.wants e :=
  (fillWithin_leaves env.admits_wanted levels s text).of_mem_adds mem

/-- With the core, diagnostic settings change nothing in what a text comes to, as long as no time
limit runs out under either of them: neither whether failures are shown nor whether filled tags are,
and neither what has been filled before. Where failures are not to be shown, none is reported or
remarked on, and where filled tags are not to be shown, none is reported. -/
theorem fillValue_reporting (env : Env) (core : env.registry = .core) (debug showErrors : Bool)
    {levels : Nat} {text : String} (enough : text.length < levels) {w w' : World}
    (faithful : w.cache.Faithful) (faithful' : w'.cache.Faithful)
    (inTime : env.InTime levels text w)
    (inTime' : (env.reporting debug showErrors).InTime levels text w') :
    let run := env.fillValue levels text
    let run' := (env.reporting debug showErrors).fillValue levels text
    run.result w = run'.result w' ∧
      (showErrors = false → ∀ message,
        .error message ∉ run'.adds w' ∧ .debug message ∉ run'.adds w') ∧
      (debug = false → ∀ tag value, .filled tag value ∉ run'.adds w') := by
  intro run run'
  have seen {e : Event} (mem : e ∈ run'.adds w') :
      (env.reporting debug showErrors).context.wants e := fillWithin_wanted _ levels {} text mem
  refine ⟨?_, fun hidden message ↦ ⟨fun mem ↦ ?_, fun mem ↦ ?_⟩, fun hidden tag value mem ↦ ?_⟩
  · exact fillValue_akin (env.akin_reporting debug showErrors) core enough faithful faithful' inTime
      inTime'
  · exact Bool.false_ne_true (hidden.symm.trans (seen mem))
  · exact Bool.false_ne_true (hidden.symm.trans (seen mem))
  · exact Bool.false_ne_true (hidden.symm.trans (seen mem))

/-- A failure in a parameter, one with an alternative that fails as well, and brackets that do not
match: all of it is seen by a caller who wants to see everything, and the time limit is kept for
it. -/
theorem fillValue_reporting_silent :
    let env : Env := { registry := .core, context := { debug := true } }
    let text := "<element[<none>]> <none||<none>> <"
    let run := env.fillValue 35 text
    let run' := (env.reporting false false).fillValue 35 text
    run.result {} = run'.result {} ∧ (run.adds {}).countP Event.isReport = 5 ∧
      (run'.adds {}).countP Event.isReport = 0 := by
  rw [Registry.core_eq_tables]
  intro env text run run'
  have inTime : env.InTime 35 text {} :=
    .of_punctual TimeLimit.ofSeconds_default (by decide +kernel)
  have inTime' : (env.reporting false false).InTime 35 text {} := by
    intro limit _ asked
    contradiction
  have core : env.registry = .core := Registry.core_eq_tables.symm
  obtain ⟨same, -⟩ := env.fillValue_reporting core false false (by decide +kernel)
    Cache.faithful_empty Cache.faithful_empty inTime inTime'
  exact ⟨same, by decide +kernel, by decide +kernel⟩

end Env

end TextTags
