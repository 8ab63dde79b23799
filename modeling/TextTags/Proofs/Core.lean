import TextTags.Proofs.Asks

/-!
# What the core asks

The attributes and the fallback of the core look at the present segment alone, and its bases ask
nothing but plain queries: none of them fills a text of its own, waits, or asks how deep it stands,
and none looks at what its caller wants reported.
-/

namespace TextTags

namespace Core

open Handler

variable {onBase : Handler (Option Value) → Prop}

private theorem onElement_local {f : String → Attempt Value} (h : ∀ text, Local (f text))
    (v : Value) :
    Local (onElement f v) := by
  cases v with
  | element text => exact h text
  | _ => trivial

private theorem onList_local {f : List Value → Attempt Value} (h : ∀ items, Local (f items))
    (v : Value) :
    Local (onList f v) := by
  cases v with
  | list items => exact h items
  | _ => trivial

private theorem onMap_local {f : Entries Value → Attempt Value} (h : ∀ entries, Local (f entries))
    (v : Value) : Local (onMap f v) := by
  cases v with
  | map entries => exact h entries
  | _ => trivial

private theorem onDuration_local {f : Duration → Attempt Value} (h : ∀ d, Local (f d)) (v : Value) :
    Local (onDuration f v) := by
  cases v with
  | duration d => exact h d
  | _ => trivial

private theorem onTime_local {f : Time → Attempt Value} (h : ∀ t, Local (f t)) (v : Value) :
    Local (onTime f v) := by
  cases v with
  | time t => exact h t
  | _ => trivial

private theorem onQueue_local {f : String → Attempt Value} (h : ∀ id, Local (f id)) (v : Value) :
    Local (onQueue f v) := by
  cases v with
  | queue id => exact h id
  | _ => trivial

private theorem onScript_local {f : String → Attempt Value} (h : ∀ name, Local (f name))
    (v : Value) :
    Local (onScript f v) := by
  cases v with
  | script name => exact h name
  | _ => trivial

private theorem onCustom_local {f : String → Entries Value → Attempt Value}
    (h : ∀ container fields, Local (f container fields)) (v : Value) : Local (onCustom f v) := by
  cases v with
  | custom container fields => exact h container fields
  | _ => trivial

private theorem elementPlain_local (names : List String) (f : String → Option Value) :
    (elementPlain names f).Satisfies onBase Local :=
  onElement_local fun _ ↦ trivial

private theorem elementRead_local (name : String) (f : String → Draws → Option Value) :
    (elementRead name f).Satisfies onBase Local :=
  onElement_local fun _ ↦ .caller (fun _ _ akin ↦ by rw [akin.draw]) fun _ ↦ trivial

private theorem elementWith_local (name : String) (f : String → String → Option Value) :
    (elementWith name f).Satisfies onBase Local :=
  onElement_local fun _ ↦ .attempt .paramText fun _ ↦ trivial

private theorem splitElement_local : splitElement.Satisfies onBase Local :=
  onElement_local fun _ ↦ ⟨rfl, fun _ ↦ trivial⟩

private theorem elementAttributes_local : ∀ r ∈ elementAttributes, r.Satisfies onBase Local := by
  simp only [elementAttributes, List.forall_mem_cons, elementPlain_local, elementRead_local,
    elementWith_local, splitElement_local, List.not_mem_nil, false_implies, implies_true, and_self]

private theorem listPlain_local (name : String) (f : List Value → Option Value) :
    (listPlain name f).Satisfies onBase Local :=
  onList_local fun _ ↦ trivial

private theorem listWith_local (name : String) (f : List Value → String → Option Value) :
    (listWith name f).Satisfies onBase Local :=
  onList_local fun _ ↦ .attempt .paramText fun _ ↦ trivial

private theorem includeItems_local : includeItems.Satisfies onBase Local := by
  refine onList_local fun items ↦ .attempt (.paramAs _) fun more ↦ ?_
  split <;> trivial

private theorem listAttributes_local : ∀ r ∈ listAttributes, r.Satisfies onBase Local := by
  simp only [listAttributes, List.forall_mem_cons, listPlain_local, listWith_local,
    includeItems_local, List.not_mem_nil, false_implies, implies_true, and_self]

private theorem mapPlain_local (name : String) (f : Entries Value → Value) :
    (mapPlain name f).Satisfies onBase Local :=
  onMap_local fun _ ↦ trivial

private theorem mapWith_local (name : String) (f : Entries Value → String → Option Value) :
    (mapWith name f).Satisfies onBase Local :=
  onMap_local fun _ ↦ .attempt .paramText fun _ ↦ trivial

private theorem mapAttributes_local : ∀ r ∈ mapAttributes, r.Satisfies onBase Local := by
  simp only [mapAttributes, List.forall_mem_cons, mapPlain_local, mapWith_local, List.not_mem_nil,
    false_implies, implies_true, and_self]

private theorem durationPlain_local (names : List String) (f : Duration → Value) :
    (durationPlain names f).Satisfies onBase Local :=
  onDuration_local fun _ ↦ trivial

private theorem durationWith_local (name : String) (f : Duration → Duration → Value) :
    (durationWith name f).Satisfies onBase Local :=
  onDuration_local fun _ ↦ .attempt .paramDuration fun _ ↦ trivial

private theorem durationAttributes_local : ∀ r ∈ durationAttributes, r.Satisfies onBase Local := by
  simp only [durationAttributes, List.forall_mem_cons, durationPlain_local, durationWith_local,
    List.not_mem_nil, false_implies, implies_true, and_self]

private theorem timePart_local (name : String) (f : CivilTime → Int) :
    (timePart name f).Satisfies onBase Local :=
  onTime_local fun _ ↦ trivial

private theorem timeWithSpan_local (name : String) (f : Time → Duration → Value) :
    (timeWithSpan name f).Satisfies onBase Local :=
  onTime_local fun _ ↦ .attempt .paramDuration fun _ ↦ trivial

private theorem timeWithTime_local (name : String) (f : Time → Time → Option Value) :
    (timeWithTime name f).Satisfies onBase Local :=
  onTime_local fun _ ↦ .attempt .paramTime fun _ ↦ trivial

private theorem formatTime_local : formatTime.Satisfies onBase Local := by
  refine onTime_local fun t ↦ .attempt .paramText fun pattern ↦ ?_
  split <;> trivial

private theorem timeAttributes_local : ∀ r ∈ timeAttributes, r.Satisfies onBase Local := by
  have millis : (Registration.attributes .time ["epoch_millis"] .none
      (onTime fun t ↦ pure (.ofInt t.millis.toInt))).Satisfies onBase Local :=
    onTime_local fun _ ↦ trivial
  simp only [timeAttributes, List.forall_mem_cons, millis, timePart_local, timeWithSpan_local,
    timeWithTime_local, formatTime_local, List.not_mem_nil, false_implies, implies_true, and_self]

private theorem queueAttributes_local : ∀ r ∈ queueAttributes, r.Satisfies onBase Local := by
  simp only [queueAttributes, List.forall_mem_cons, List.not_mem_nil, false_implies, implies_true,
    and_true]
  exact ⟨onQueue_local fun _ ↦ trivial, onQueue_local fun _ _ ↦ trivial,
    onQueue_local fun _ ↦ .attempt .paramText fun _ _ ↦ trivial, onQueue_local fun _ _ ↦ trivial⟩

private theorem scriptAttributes_local : ∀ r ∈ scriptAttributes, r.Satisfies onBase Local := by
  simp only [scriptAttributes, List.forall_mem_cons, List.not_mem_nil, false_implies, implies_true,
    and_true]
  exact ⟨onScript_local fun _ ↦ trivial, onScript_local fun _ _ ↦ trivial,
    onScript_local fun _ _ ↦ trivial⟩

/-- A field is found by the name of the present segment. -/
theorem namedField_local (fields : Entries Value) : Local (namedField fields) := by
  refine ⟨fun c c' key _ ↦ ?_, fun _ ↦ trivial⟩
  change done ((c.key? 0).bind fields.get?) = done ((c'.key? 0).bind fields.get?)
  rw [key]

private theorem customAttributes_local : ∀ r ∈ customAttributes, r.Satisfies onBase Local := by
  simp only [customAttributes, List.forall_mem_cons, List.not_mem_nil, false_implies, implies_true,
    and_true]
  exact ⟨onCustom_local fun _ _ ↦ trivial, onCustom_local fun _ _ ↦ trivial,
    onCustom_local fun _ fields ↦ namedField_local fields⟩

private theorem universalAttributes_local :
    ∀ r ∈ universalAttributes, r.Satisfies onBase Local := by
  simp only [universalAttributes, List.forall_mem_cons, List.not_mem_nil, false_implies,
    implies_true, and_true]
  exact ⟨fun _ ↦ trivial, fun _ ↦ trivial⟩

private theorem referenceBase_local (name : String) (kind : Kind) (own : Site → Option Value) :
    (referenceBase name kind own).Satisfies Local Local := by
  refine ⟨fun c c' _ param ↦ ?_, fun c ↦ ?_⟩
  · have same : c.hasParam 0 = c'.hasParam 0 := congrArg Option.isSome param
    change (if c.hasParam 0 then _ else _) = (if c'.hasParam 0 then _ else _)
    rw [same]
  · change Local (if c.hasParam 0 then _ else _)
    split
    · exact .paramAs kind
    · refine ⟨fun c c' akin ↦ ?_, fun _ ↦ trivial⟩
      change done (own c.site) = done (own c'.site)
      rw [akin.site]

private theorem definition_local : Local definition := by
  refine .attempt .paramText fun name ↦ .caller (fun c c' akin ↦ by rw [akin.site]) fun c ↦ ?_
  exact .attempt trivial fun _ _ ↦ trivial

private theorem contextValue_discreet : Discreet contextValue := by
  refine .attempt ⟨rfl, fun _ ↦ trivial⟩ fun _ ↦ .attempt trivial fun _ ↦
    .caller (fun c c' akin ↦ by rw [akin.site]) fun c ↦ ?_
  exact .attempt ⟨rfl, fun _ ↦ trivial⟩ fun _ ↦ .attempt ⟨rfl, fun _ ↦ trivial⟩ fun _ ↦ trivial

private theorem choice_discreet : Discreet choice := by
  refine .attempt ⟨rfl, fun _ ↦ trivial⟩ fun c ↦ ?_
  split
  · refine .attempt (.attempt ⟨rfl, fun _ ↦ trivial⟩ fun _ ↦ trivial) fun condition ↦ ?_
    exact .attempt ⟨rfl, fun _ ↦ trivial⟩ fun _ ↦ .attempt ⟨rfl, fun _ ↦ trivial⟩ fun _ ↦ trivial
  · exact .attempt ⟨rfl, fun _ ↦ trivial⟩ fun _ ↦ trivial

private theorem randomBetween_discreet : Discreet randomBetween := by
  refine .attempt (.attempt ⟨rfl, fun _ ↦ trivial⟩ fun _ ↦ trivial) fun _ ↦ .attempt trivial fun _ ↦
    .attempt (.attempt ⟨rfl, fun _ ↦ trivial⟩ fun _ ↦ trivial) fun _ ↦ .attempt trivial fun _ ↦
      .caller (fun c c' akin ↦ by rw [akin.draw]) fun _ ↦ ?_
  exact .attempt ⟨rfl, fun _ ↦ trivial⟩ fun _ ↦ trivial

private theorem utility_discreet : Discreet utility := by
  refine .attempt ⟨rfl, fun _ ↦ trivial⟩ fun c ↦
    .caller (fun c c' akin ↦ by rw [akin.now, akin.draw]) fun caller ↦ ?_
  split
  · exact .attempt ⟨rfl, fun _ ↦ trivial⟩ fun _ ↦ trivial
  · split
    · exact randomBetween_discreet
    · split
      · exact .attempt ⟨rfl, fun _ ↦ trivial⟩ fun _ ↦ trivial
      · trivial

/-- What local handlers have, and the three bases that look further, all bases have. -/
theorem bases_satisfy (ofLocal : ∀ h : Handler (Option Value), h.Local → onBase h)
    (value : onBase contextValue) (branch : onBase choice) (clock : onBase utility) :
    ∀ r ∈ bases, r.Satisfies onBase Local := by
  have element : Local (do return .element (← Attempt.paramText 0) : Attempt Value) :=
    .attempt .paramText fun _ ↦ trivial
  have literal (name : String) (kind : Kind) : (literalBase name kind).Satisfies onBase Local :=
    ofLocal _ (Local.paramAs kind)
  have reference (name : String) (kind : Kind) (own : Site → Option Value) :
      (referenceBase name kind own).Satisfies onBase Local :=
    ofLocal _ (referenceBase_local name kind own)
  simp only [bases, List.forall_mem_cons, literal, reference, List.not_mem_nil, false_implies,
    implies_true, and_true, true_and]
  exact ⟨ofLocal _ element, ofLocal _ definition_local, value, branch, clock⟩

/-- Whatever the bases have in common: the core has it, and all its other handlers are local. -/
theorem core_satisfies (h : ∀ r ∈ bases, r.Satisfies onBase Local) :
    Registry.core.Satisfies onBase Local := by
  refine .ofHistory fun r mem ↦ ?_
  simp only [history, List.mem_append] at mem
  rcases mem with ((((((((mem | mem) | mem) | mem) | mem) | mem) | mem) | mem) | mem) | mem
  · exact h r mem
  · exact elementAttributes_local r mem
  · exact listAttributes_local r mem
  · exact mapAttributes_local r mem
  · exact durationAttributes_local r mem
  · exact timeAttributes_local r mem
  · exact queueAttributes_local r mem
  · exact scriptAttributes_local r mem
  · exact customAttributes_local r mem
  · exact universalAttributes_local r mem

end Core

/-- The handlers of the core do nothing but ask plain queries, and nothing else for callers that are
akin. -/
theorem Registry.core_discreet : Registry.core.Satisfies Handler.Discreet Handler.Discreet :=
  (Core.core_satisfies (Core.bases_satisfy (fun _ h ↦ h.discreet) Core.contextValue_discreet
    Core.choice_discreet Core.utility_discreet)).imp (fun _ h ↦ h) fun _ h ↦ h.discreet

/-- The core asks only plain queries. -/
theorem Registry.core_plain : Registry.core.AsksOnly (·.isPlain) :=
  core_discreet.imp (fun _ h ↦ h.asksOnly) fun _ h ↦ h.asksOnly

end TextTags
