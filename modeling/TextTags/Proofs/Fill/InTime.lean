import TextTags.Proofs.Fill.Boxing
import TextTags.Proofs.Fill.Faultless
import TextTags.Proofs.Fill.Interchange
import TextTags.Proofs.Fill.Timely

/-!
# Filling in time

Where no time limit runs out, a text comes with the core to what it would come to without any. So it
comes to the same for all callers that are akin, whatever world they start from.
-/

namespace TextTags.Env

open Run

variable {env env' : Env} {levels : Nat} {text : String} {w w' : World}

/-- Whether no time limit runs out while a text is filled: where the host has a limit kept, each
resolution that begins alone ends before its limit has passed. -/
def InTime (env : Env) (levels : Nat) (text : String) (w : World) : Prop :=
  ∀ limit, env.context.timeLimit = .within limit → env.host.timeBoxes env.context →
    ∀ e ∈ (env.fillValue levels text).adds w, e.isPunctual limit

/-- Where the limit is known, no other has to be kept. -/
theorem InTime.of_punctual {limit : Limit} (limits : env.context.timeLimit = .within limit)
    (early : ∀ e ∈ (env.fillValue levels text).adds w, e.isPunctual limit) :
    env.InTime levels text w := by
  intro limit' within _
  obtain rfl := TimeLimit.within.inj (limits.symm.trans within)
  exact early

/-- A host that asks for the time limit in the context at hand may as well ask for it always, and
one that does not may as well never do so. -/
theorem fillValue_boxing_asked (env : Env) (levels : Nat) (text : String) :
    env.fillValue levels text =
      (env.boxing (env.host.timeBoxes env.context)).fillValue levels text := by
  have exchange : env.Interchangeable (env.boxing (env.host.timeBoxes env.context)) :=
    ⟨.refl _, env.answer_boxing _, rfl, rfl⟩
  exact fillWithin_interchange exchange levels {} text

/-- A text that is filled in time is filled as without time limits. -/
theorem InTime.result_eq (inTime : env.InTime levels text w) (core : env.registry = .core)
    (enough : text.length < levels) (faithful : w.cache.Faithful) :
    (env.fillValue levels text).result w = ((env.boxing false).fillValue levels text).result w := by
  have asked := env.fillValue_boxing_asked levels text
  unfold InTime at inTime
  cases keeps : env.host.timeBoxes env.context with
  | false =>
    rw [keeps] at asked
    rw [asked]
  | true =>
    rw [keeps] at asked
    rw [asked] at inTime ⊢
    have other (q : Query) : q.isPlain → q ≠ .depth := by
      rintro plain rfl
      contradiction
    have handlers : env.registry.AsksOnly (· ≠ .depth) :=
      core ▸ Registry.core_plain.imp (fun _ h ↦ h.imp other) fun _ h ↦ h.imp other
    have ends : ((env.boxing true).fillValue levels text).Ends :=
      fillWithin_ends (core ▸ Registry.core_fillsNothing) enough {}
    exact (fillValue_hooked handlers levels text w (ends w faithful).2 fun limit within ↦
      inTime limit within keeps).result_eq

/-- With the core, and with enough levels and no time limit that runs out, a text comes to the same
for callers that are akin, whatever has been filled before and however long ago. -/
theorem fillValue_akin (akin : env.Akin env') (core : env.registry = .core)
    (enough : text.length < levels) (faithful : w.cache.Faithful) (faithful' : w'.cache.Faithful)
    (inTime : env.InTime levels text w) (inTime' : env'.InTime levels text w') :
    (env.fillValue levels text).result w = (env'.fillValue levels text).result w' := by
  have unboxed : (env.boxing false).Akin (env'.boxing false) :=
    ⟨akin.registry, by rw [answer_boxing, answer_boxing, akin.answer], akin.context⟩
  have alike : Alike (World.BothTimely {}) Eq ((env.boxing false).fillValue levels text)
      ((env'.boxing false).fillValue levels text) :=
    fillWithin_akin unboxed (core ▸ Registry.core_discreet) levels rfl
      (env.jobLimit?_boxing_false {}) (env'.jobLimit?_boxing_false {}) text
  rw [inTime.result_eq core enough faithful,
    inTime'.result_eq (akin.registry.trans core) enough faithful']
  exact alike.result_eq ⟨⟨faithful, rfl⟩, ⟨faithful', rfl⟩⟩

end TextTags.Env
