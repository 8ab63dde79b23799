import TextTags.Core.Registry
import TextTags.Host.Memory
import TextTags.Proofs.Registry
import TextTags.Proofs.Value.Finite

/-!
# What handlers give

What a handler gives is told by its answers. Where the values that it is answered are of finite
durations, all values that the core gives are, with the exception of two attributes: a sum and a
difference of durations are not looked at before they are given.
-/

namespace TextTags

/-- Whether the values in the answer of a host are of finite durations. -/
def Lookup.Finite : (l : Lookup) → l.Answer → Prop
  | definition _ _, found => ∀ v ∈ found, v.Finite
  | contextValue _ _, found => ∀ v ∈ found, v.Finite
  | queueExists _, _ => True
  | definitionNames _, _ => True
  | scriptExists _, _ => True
  | scriptType _, _ => True
  | lineage _, _ => True

/-- A host whose values are of finite durations. -/
def Host.Finite (h : Host) : Prop := ∀ l : Lookup, l.Finite (h.answer l)

/-- Whether the values in the answer to a query are of finite durations. -/
def Query.Finite : (q : Query) → q.Answer → Prop
  | param _, filled => ∀ v ∈ filled, v.Finite
  | fill _, v => v.Finite
  | host l, answer => l.Finite answer
  | cursor, _ => True
  | fulfill _, _ => True
  | seem _, _ => True
  | lackParam, _ => True
  | context, _ => True
  | depth, _ => True
  | cancelled, _ => True
  | elapse _, _ => True
  | awaitCancel, _ => True
  | note, _ => True

namespace Handler

variable {α β : Type}

/-- A handler that ends well if it ends, as long as the answers are of finite durations. -/
def Ensures (good : α → Prop) : Handler α → Prop
  | done a => good a
  | fault _ => True
  | ask query next => ∀ answer, query.Finite answer → Ensures good (next answer)

/-- A handler whose value is good if it gives one. -/
def Gives (good : α → Prop) (h : Handler (Option α)) : Prop :=
  h.Ensures fun given ↦ ∀ a ∈ given, good a

private theorem Ensures.bind {good : α → Prop} {good' : β → Prop} {h : Handler α}
    {f : α → Handler β} (first : h.Ensures good) (next : ∀ a, good a → (f a).Ensures good') :
    (h.bind f).Ensures good' := by
  induction h with
  | done a => exact next a first
  | fault message => trivial
  | ask query rest ih => exact fun answer finite ↦ ih answer (first answer finite)

private theorem Ensures.imp {good good' : α → Prop} (le : ∀ a, good a → good' a) {h : Handler α}
    (ends : h.Ensures good) : h.Ensures good' := by
  induction h with
  | done a => exact le a ends
  | fault message => trivial
  | ask query next ih => exact fun answer finite ↦ ih answer (ends answer finite)

private theorem ensures_of_forall {good : α → Prop} (all : ∀ a, good a) (h : Handler α) :
    h.Ensures good := by
  induction h with
  | done a => exact all a
  | fault message => trivial
  | ask query next ih => exact fun answer _ ↦ ih answer

namespace Gives

variable {good : α → Prop} {good' : β → Prop}

/-- Every handler gives something of no condition. -/
theorem any {x : Attempt α} : Gives (fun _ ↦ True) x := ensures_of_forall (fun _ _ _ ↦ trivial) x

/-- A handler that gives nothing gives nothing bad. -/
theorem none : Gives good (.done .none) := nofun

/-- A handler that gives a good value gives a good one. -/
theorem some {a : α} (h : good a) : Gives good (.done (.some a)) := fun _ mem ↦ by
  cases mem
  exact h

/-- A handler may ask, if it gives a good value whatever it is answered. -/
theorem ask {query : Query} {next : query.Answer → Handler (Option α)}
    (h : ∀ answer, query.Finite answer → Gives good (next answer)) :
    Gives good (.ask query next) := h

/-- A value that is at hand is given if it is good. -/
theorem ofOption {given : Option α} (h : ∀ a, given = .some a → good a) :
    Gives good (Attempt.ofOption given) := h

/-- An attempt gives a good value if it ends in one after every value before. -/
theorem attempt {x : Attempt α} {f : α → Attempt β} (first : Gives good x)
    (next : ∀ a, good a → Gives good' (f a)) : Gives good' (Bind.bind (m := Attempt) x f) := by
  refine Ensures.bind first fun given good ↦ ?_
  cases given with
  | none => exact none
  | some a => exact next a (good a rfl)

/-- A handler that gives good values gives such as these imply. -/
theorem imp {x : Handler (Option α)} {good' : α → Prop} (le : ∀ a, good a → good' a)
    (h : x.Gives good) : x.Gives good' :=
  Ensures.imp (fun _ all a mem ↦ le a (all a mem)) h

/-- A parameter is filled with a value of finite durations. -/
theorem param (offset : Nat) : Gives Value.Finite (Attempt.param offset) :=
  fun _ finite ↦ finite

private theorem convert (kind : Kind) {v : Value} (finite : v.Finite) (draw : Draws) :
    Gives Value.Finite (kind.convert host v draw) := by
  unfold Kind.convert
  split
  · exact some finite
  · cases kind with
    | element => exact some (Value.finite_element _)
    | list => exact some (Value.finite_itemsOfText _ _)
    | map =>
      refine fun given mem ↦ ?_
      obtain ⟨es, read, rfl⟩ := Option.map_eq_some_iff.1 mem
      exact Value.finite_map.2 (Value.finite_of_entriesOfText read)
    | duration =>
      refine fun given mem ↦ ?_
      obtain ⟨d, read, rfl⟩ := Option.map_eq_some_iff.1 mem
      exact Value.finite_duration.2 (Duration.finite_ofChars read)
    | time =>
      refine fun given mem ↦ ?_
      obtain ⟨t, -, rfl⟩ := Option.map_eq_some_iff.1 mem
      exact Value.finite_time t
    | queue | script =>
      unfold Kind.read Kind.readReference
      dsimp only
      split
      · exact none
      · exact some (by simp)
      · refine fun found _ ↦ ?_
        cases found
        · exact none
        · exact some (by simp)
    | custom =>
      unfold Kind.read Kind.readCustom
      dsimp only
      split
      · refine fun line _ given mem ↦ ?_
        obtain ⟨⟨name, fields⟩, object, rfl⟩ := Option.map_eq_some_iff.1 mem
        exact Value.finite_custom.2 (finite_of_objectOf object)
      · next container stored read =>
        refine fun line _ ↦ some (Value.finite_custom.2 ?_)
        refine Entries.forall_insertAll ?_ (Value.finite_of_customOfText read)
        cases object : objectOf? line with
        | none => simp
        | some o => exact finite_of_objectOf object

/-- A parameter as a value of one kind has finite durations. -/
theorem paramAs (kind : Kind) (offset : Nat) : Gives Value.Finite (Attempt.paramAs kind offset) :=
  attempt (param offset) fun _ finite ↦ .ask fun caller _ ↦ convert kind finite caller.draw

/-- A parameter as a duration is finite. -/
theorem paramDuration (offset : Nat) : Gives Duration.Finite (Attempt.paramDuration offset) := by
  refine attempt (paramAs .duration offset) fun v finite ↦ ?_
  split
  · exact some (Value.finite_duration.1 finite)
  · exact none

end Gives

end Handler

end TextTags
