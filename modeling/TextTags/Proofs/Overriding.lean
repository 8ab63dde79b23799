import TextTags.Proofs.Fill.Embedding
import TextTags.Proofs.Inheritance

/-!
# Fields of an identity

A custom object that is read from its identity has the fields that are written there, and for every
other name those of its container. A field is found under the name in another letter case as long as
letters of the ASCII set alone differ.
-/

namespace TextTags

open Run Text

namespace Entries

variable {α : Type} {es pairs : Entries α} {key : String}

/-- Whether a key differs from its lower-case form in letters of the ASCII set alone. -/
def IsAsciiCased (key : String) : Prop := sameKey key (lower key)

instance (key : String) : Decidable (IsAsciiCased key) := inferInstanceAs (Decidable (_ = true))

private theorem isAsciiCased_lower (key : String) : IsAsciiCased (lower key) := by
  rw [IsAsciiCased, lower_lower, sameKey_iff]

private theorem lower_eq_of_sameKey {a b : String} (same : sameKey a b) : lower a = lower b :=
  lower_eq_of_sameIgnoringCase same

private theorem get?_eq_none (absent : ∀ e ∈ es, ¬ sameKey e.1 key) : es.get? key = none := by
  rw [get?, Option.map_eq_none_iff, List.find?_eq_none]
  exact absent

private theorem Distinct.get?_of_mem (distinct : es.Distinct) {e : String × α} (mem : e ∈ es)
    (same : sameKey e.1 key) : es.get? key = some e.2 := by
  induction es with
  | nil => contradiction
  | cons first rest ih =>
    obtain ⟨apart, others⟩ := List.pairwise_cons.1 distinct
    rw [get?_cons]
    rcases List.mem_cons.1 mem with rfl | later
    · rw [if_pos same]
    · rw [if_neg fun same' ↦ apart e later (sameKey_trans same' (sameKey_symm same))]
      exact ih others later

/-- What is laid over entries counts, and they count where it has nothing. -/
theorem Distinct.get?_insertAll (distinct : pairs.Distinct) (es : Entries α) (key : String) :
    (es.insertAll pairs).get? key = (pairs.get? key).or (es.get? key) := by
  induction pairs generalizing es with
  | nil => rfl
  | cons p rest ih =>
    obtain ⟨apart, others⟩ := List.pairwise_cons.1 distinct
    change ((es.insert p.1 p.2).insertAll rest).get? key = _
    rw [ih others, get?_insert, get?_cons]
    by_cases same : sameKey p.1 key
    · have absent : get? rest key = none :=
        get?_eq_none fun e mem same' ↦ apart e mem (sameKey_trans same (sameKey_symm same'))
      rw [if_pos same, if_pos same, absent]
      rfl
    · rw [if_neg same, if_neg same]

/-- A key is listed once in lower case where letters of the ASCII set alone are capital. -/
theorem Distinct.nodup_lower_keys (distinct : es.Distinct) (cased : ∀ e ∈ es, IsAsciiCased e.1) :
    (es.keys.map lower).Nodup := by
  rw [keys, List.map_map, List.Nodup, List.pairwise_map]
  refine distinct.imp_of_mem fun {a b} mem mem' apart eq ↦ apart ?_
  have same : lower a.1 = lower b.1 := eq
  exact sameKey_trans (cased a mem) (same ▸ sameKey_symm (cased b mem'))

end Entries

namespace Value

/-- The value that a segment of a name finds in an object. -/
def field? (v : Value) (name : String) : Option Value :=
  match v with
  | .custom _ fields => Entries.get? fields (lower name)
  | _ => none

/-- The object of a line of containers with stored fields laid over the line's. -/
def overridden (container : String) (stored : Entries Value) (line : List Container) : Value :=
  let (name, fields) := (objectOf? line).getD (container, [])
  .custom name (Entries.insertAll fields stored)

private theorem distinct_of_customOfText? {text container : String} {draw : Draws}
    {stored : Entries Value}
    (read : customOfText? text draw = some (container, stored)) : stored.Distinct := by
  unfold customOfText? customOfChars? at read
  obtain ⟨body, -, read⟩ := Option.bind_eq_some_iff.1 read
  dsimp only at read
  split at read
  · contradiction
  · obtain ⟨pairs, -, read⟩ := Option.bind_eq_some_iff.1 read
    cases read
    exact Entries.Distinct.insertAll .nil _

end Value

/-- The keys of default fields are in lower case. -/
theorem isAsciiCased_of_mem_layeredFields {line : List Container} {e : String × Value}
    (mem : e ∈ layeredFields line) : Entries.IsAsciiCased e.1 := by
  obtain ⟨-, -, field, -, eq⟩ := exists_of_mem_layeredFields mem
  exact eq ▸ Entries.isAsciiCased_lower field.1

private theorem Kind.read_custom {m : Type → Type} [Monad m]
    (ask : (l : Lookup) → m l.Answer) {text container : String} {draw : Draws}
    {stored : Entries Value} (read : Value.customOfText? text draw = some (container, stored)) :
    Kind.custom.read ask text draw =
      ask (.lineage container) >>= fun line ↦
        pure (some (Value.overridden container stored line)) := by
  rw [Kind.read, readCustom, read]
  rfl

namespace Memory

variable (m : Memory) {text container : String} {stored : Entries Value}

/-- The default fields of a container of the host. -/
def defaults (container : String) : Entries Value :=
  layeredFields (m.host.lineage container)

private theorem field?_object? (container name : String) :
    (m.object? container).bind (·.field? name) = (m.defaults container).get? (lower name) := by
  unfold object? defaults
  cases m.host.lineage container with
  | nil => rfl
  | cons c farther => exact rfl

private theorem overridden_lineage (container : String) (stored : Entries Value) :
    ∃ name, Value.overridden container stored (m.host.lineage container) =
      .custom name (Entries.insertAll (m.defaults container) stored) := by
  unfold Value.overridden defaults
  cases m.host.lineage container with
  | nil => exact ⟨_, rfl⟩
  | cons c farther => exact ⟨_, rfl⟩

end Memory

namespace Frame

variable {f : Frame} {m : Memory} {clock : Nat} {x : Value} {container : String}
  {stored : Entries Value}

/-- What the base makes of a value that is no object and whose identity is that of one. -/
theorem run_convert_custom (host : f.env.host = m.host) (other : x.kind ≠ .custom)
    (read : Value.customOfText? x.identity f.env.context.draw = some (container, stored)) :
    GivesAt clock (f.run (Handler.Attempt.convert .custom x) {})
      (some (.overridden container stored (m.host.lineage container)), {}) := by
  have asked : GivesAt clock (f.answer {} (.host (.lineage container)))
      (m.host.lineage container, {}) := by
    refine ((GivesAt.emit _).bind ?_).bind (GivesAt.pure _)
    rw [host]
    exact GivesAt.pure _
  change GivesAt _ (f.run (Kind.custom.convert Handler.host x f.env.context.draw) {}) _
  rw [Kind.convert, if_neg other, Kind.read_custom Handler.host read]
  exact asked.bind (GivesAt.pure _)

/-- A chain of nothing but the base of custom objects gives the object that the filled parameter
stands for. -/
theorem runChain_custom {raw : String} (registry : f.env.registry = .core)
    (host : f.env.host = m.host) (base : f.chain.root.key = "custom")
    (param : f.chain.root.param = some raw) (single : f.chain.rest = [])
    (time : f.scope.passed? clock = none) (fill : GivesAt clock (f.fill raw) x)
    (other : x.kind ≠ .custom)
    (read : Value.customOfText? x.identity f.env.context.draw = some (container, stored)) :
    GivesAt clock f.runChain
      (.fulfilled (.overridden container stored (m.host.lineage container)) 1) := by
  have known : f.env.registry.base? f.chain.root.key = some ⟨"custom", .custom,
      Handler.ofParam (Handler.Attempt.convert .custom)⟩ := by
    rw [registry, base]
    exact Registry.base?_core_custom
  exact runChain_root ⟨_, _, known⟩ param single time fill (run_convert_custom host other read)

end Frame

namespace Memory

variable (m : Memory) {text container : String} {stored : Entries Value}

/-- An object that is read from its identity has the fields written there, whatever its container
declares, and under every other name what the container's object has. -/
theorem identity_overrides {draw : Draws}
    (read : Value.customOfText? text draw = some (container, stored)) :
    ∃ (name : String) (fields : Entries Value),
      Kind.custom.read (m := Id) m.answer text draw = some (.custom name fields) ∧
      (∀ (f : Frame) (clock : Nat) (raw : String) (x : Value),
        f.env.registry = .core → f.env.host = m.host → f.env.context.draw = draw →
        f.chain.root.key = "custom" →
        f.chain.root.param = some raw → f.chain.rest = [] → f.scope.passed? clock = none →
        GivesAt clock (f.fill raw) x → x.kind ≠ .custom → x.identity = text →
        GivesAt clock f.runChain (.fulfilled (.custom name fields) 1)) ∧
      (∀ e ∈ stored, Entries.IsAsciiCased e.1 →
        (Value.custom name fields).field? e.1 = some e.2) ∧
      (∀ key, (∀ e ∈ stored, lower e.1 ≠ lower key) →
        (Value.custom name fields).field? key = (m.object? container).bind (·.field? key)) ∧
      ((∀ e ∈ stored, Entries.IsAsciiCased e.1) → (fields.keys.map lower).Nodup) := by
  have distinct := Value.distinct_of_customOfText? read
  obtain ⟨name, object⟩ := m.overridden_lineage container stored
  have value (key : String) :
      (Value.custom name ((m.defaults container).insertAll stored)).field? key =
      (stored.get? (lower key)).or ((m.defaults container).get? (lower key)) :=
    distinct.get?_insertAll _ _
  refine ⟨name, (m.defaults container).insertAll stored, ?_, ?_, ?_, ?_, ?_⟩
  · rw [Kind.read_custom (m := Id) m.answer read, ← object]
    rfl
  · rintro f clock raw x registry host rfl base param single time fill other rfl
    rw [← object]
    exact f.runChain_custom registry host base param single time fill other read
  · intro e mem cased
    rw [value, distinct.get?_of_mem mem cased]
    rfl
  · intro key apart
    -- Keys that are the same in ASCII case have the same lower case.
    have absent : stored.get? (lower key) = none := by
      refine Entries.get?_eq_none fun e mem same ↦ apart e mem ?_
      rw [Entries.lower_eq_of_sameKey same, lower_lower]
    rw [value, absent, field?_object?]
    rfl
  · intro cased
    refine ((distinct_layeredFields _).insertAll stored).nodup_lower_keys fun e mem ↦ ?_
    rcases Entries.key_of_mem_insertAll mem with ⟨p, new, eq⟩ | ⟨e', old, eq⟩
    · exact eq ▸ cased p new
    · exact eq ▸ isAsciiCased_of_mem_layeredFields old

/-- A container with names in capital letters, of the ASCII set and beyond it. -/
def accented : Memory :=
  ({} : Memory).withContainer ⟨"c", none, [("Legs", "4"), ("É", "1"), ("Sound", "woof")]⟩

/-- Names in other letter case than the container's, of the ASCII set and, in lower case, beyond it:
what the tag gives has each of them with its stored value, and the name that is not stored. -/
theorem identity_overrides_accented :
    let text := "custom@C[lEGS=3;é=2]"
    let env : Env := { registry := .core, host := accented.host }
    let chain : Chain :=
      ⟨"custom[custom@C[lEGS=3;é=2]]", ⟨"custom", "custom", some text, none⟩, []⟩
    ∃ (name : String) (fields : Entries Value),
      Kind.custom.read (m := Id) accented.answer text = some (.custom name fields) ∧
      (Frame.runChain ⟨env, {}, env.fillWithin 1 {}, chain⟩).result {} =
        .ok (.fulfilled (.custom name fields) 1) ∧
      (Value.custom name fields).field? "lEGS" = some (.element "3") ∧
      (Value.custom name fields).field? "é" = some (.element "2") ∧
      (Value.custom name fields).field? "SOUND" = some (.element "woof") ∧
      (fields.keys.map lower).Nodup := by
  intro text env chain
  have read : Value.customOfText? text =
      some ("C", [("lEGS", .element "3"), ("é", .element "2")]) := by cbv
  obtain ⟨name, fields, parsed, based, stored, others, once⟩ := identity_overrides accented read
  have filled : GivesAt 0 (env.fillWithin 1 {} text) (.element text) :=
    env.fillWithin_plain (by decide) 0 {}
  have ran := based ⟨env, {}, env.fillWithin 1 {}, chain⟩ 0 text (.element text) rfl rfl rfl rfl rfl
    rfl rfl filled (by decide) (Value.identity_element text)
  have faithful : ({} : World).cache.Faithful := Cache.faithful_empty
  have legs : Entries.IsAsciiCased "lEGS" := by decide +kernel
  have accent : Entries.IsAsciiCased "é" := by decide +kernel
  have absent : ∀ e ∈ [("lEGS", Value.element "3"), ("é", .element "2")],
      lower e.1 ≠ lower "SOUND" := by
    simp only [List.forall_mem_cons, List.not_mem_nil, false_imp_iff, implies_true, and_true]
    decide +kernel
  have cased : ∀ e ∈ [("lEGS", Value.element "3"), ("é", .element "2")],
      Entries.IsAsciiCased e.1 := by
    simp only [List.forall_mem_cons, List.not_mem_nil, false_imp_iff, implies_true, and_true]
    exact ⟨legs, accent⟩
  have sound : (accented.object? "C").bind (·.field? "SOUND") = some (.element "woof") := by cbv
  exact ⟨name, fields, parsed, ran.result_eq (w := {}) faithful,
    stored ("lEGS", .element "3") (.head _) legs,
    stored ("é", .element "2") (.tail _ (.head _)) accent, (others "SOUND" absent).trans sound,
    once cased⟩

/-- A name with a capital letter beyond the ASCII set is not found under the value stored with it,
even if it is the only one that is stored. -/
theorem identity_overrides_not_beyond_ascii :
    ¬ ∀ (m : Memory) (text container : String) (stored : Entries Value),
      Value.customOfText? text = some (container, stored) → (stored.keys.map lower).Nodup →
      ∃ (name : String) (fields : Entries Value),
        Kind.custom.read (m := Id) m.answer text = some (.custom name fields) ∧
        ∀ e ∈ stored, (Value.custom name fields).field? e.1 = some e.2 := by
  intro claim
  have read : Value.customOfText? "custom@c[É=2]" = some ("c", [("É", .element "2")]) := by cbv
  obtain ⟨name, fields, parsed, values⟩ :=
    claim accented "custom@c[É=2]" "c" _ read (List.nodup_singleton _)
  have object : Kind.custom.read (m := Id) accented.answer "custom@c[É=2]" =
      some (.custom "c" [("legs", .element "4"), ("é", .element "1"), ("sound", .element "woof"),
        ("É", .element "2")]) := by
    cbv
  cases parsed.symm.trans object
  have value := values _ List.mem_cons_self
  have default : (Value.custom "c" [("legs", .element "4"), ("é", .element "1"),
      ("sound", .element "woof"), ("É", .element "2")]).field? "É" = some (.element "1") := by cbv
  exact absurd (default.symm.trans value) (by simp)

end Memory

end TextTags
