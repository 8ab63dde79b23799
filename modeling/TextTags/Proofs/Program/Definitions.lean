import TextTags.Proofs.Fill.Embedding
import TextTags.Proofs.Program
import TextTags.Proofs.Settings.Lines
import TextTags.Proofs.Text.Case

/-!
# Definitions of the settings

A definition of the settings goes through four places that find names in any letter case: the reader
of settings, the host, the reader of chains and the base of definitions. They agree on every name,
and the text is never looked into.
-/

namespace TextTags

open Run Text

namespace Core

/-- The definition of the caller's queue under the name that a value is as text. -/
def definitionOf (v : Value) : Handler.Attempt Value := do
  let caller ← Handler.context
  queueDefinition (← .ofOption caller.site.queue) v.asElement

private theorem definition_eq : definition = Handler.ofParam definitionOf := by
  refine congrArg (Handler.ask (.param 0)) (funext fun v ↦ ?_)
  cases v <;> rfl

end Core

private theorem Env.makes_definition {env : Env} {queue name : String} {v : Value} (clock : Nat)
    (here : env.context.site.queue = some queue)
    (known : env.host.answer (.definition queue name) = some v) :
    env.Makes clock (Core.definitionOf (.element name)) v := by
  rintro f rfl
  have answer : GivesAt clock (f.askHost (.definition queue name)) (some v) := by
    refine (GivesAt.emit _).bind ?_
    rw [known]
    exact GivesAt.pure _
  have answered : GivesAt clock (f.answer {} (.host (.definition queue name))) (some v, {}) :=
    answer.bind (GivesAt.pure _)
  have asked : GivesAt clock (f.run (Core.queueDefinition queue name) {}) (some v, {}) :=
    answered.bind (GivesAt.pure _)
  have caller : GivesAt clock (f.run (liftM Handler.context : Handler.Attempt Context) {})
      (some f.env.context, {}) :=
    (GivesAt.pure _).bind (GivesAt.pure _)
  have site : GivesAt clock (f.run (.ofOption f.env.context.site.queue : Handler.Attempt String) {})
      (some queue, {}) := by
    rw [here]
    exact GivesAt.pure _
  rw [Core.definitionOf, Value.asElement, Value.identity_element]
  exact Frame.attempt_givesAt caller (Frame.attempt_givesAt site asked)

namespace Settings

private theorem lower_name_of_mention? {pair d : String × String} (h : mention? pair = some d) :
    lower d.1 = d.1 := by
  unfold mention? at h
  split at h
  · contradiction
  · contradiction
  · obtain rfl := Option.some.inj h
    dsimp only
    rw [lower, String.toList_ofList, lowerChars_lowerChars]

/-- The names of definitions are kept in lower case. -/
theorem lower_name {text : String} {d : String × String} (mem : d ∈ (ofText text).1.definitions) :
    lower d.1 = d.1 := by
  have named : d.1 ∈ (mentions text).map (·.1) := by
    rw [← List.mem_eraseDups, ← names_defined, ← definitions_ofText]
    exact List.mem_map_of_mem mem
  obtain ⟨mention, found, same⟩ := List.mem_map.1 named
  obtain ⟨pair, -, mentioned⟩ := List.mem_filterMap.1 found
  rw [← same, lower_name_of_mention? mentioned]

variable {text key value : String} {name : List Char}

/-- A pair that can be used, under the key of a definition, defines a name. -/
theorem mem_mentions (entry : (key, value) ∈ entries text)
    (named : definitionName? key = some name) :
    (.ofList (lowerChars name), value) ∈ mentions text := by
  refine List.mem_filterMap.2 ⟨(key, value), entry, ?_⟩
  rw [mention?, named]
  cases name with
  | cons => rfl
  | nil =>
    have sets := sets_of_mem_entries entry {}
    generalize ({} : Settings).take (key, value) = next at sets
    cases sets with
    | definition named' given => exact absurd (Option.some.inj (named'.symm.trans named)) given
    | timeout other | timeBox other | workers other | debug other | showErrors other =>
      dsimp only at other
      rw [other] at named
      contradiction

private theorem exists_latest {mentions : List (String × String)} {name value : String}
    (mem : (name, value) ∈ mentions) : ∃ last, latest name some mentions = some last := by
  have kept : (name, value) ∈ mentions.filter (·.1 = name) := by simp [mem]
  obtain ⟨last, found⟩ :=
    Option.isSome_iff_exists.1 (List.getLast?_isSome.2 (List.ne_nil_of_mem kept))
  exact ⟨last.2, by rw [latest, found]; rfl⟩

end Settings

namespace Program

private theorem lookup_lowered {definitions : List (String × String)}
    (low : ∀ d ∈ definitions, lower d.1 = d.1) (key : String) :
    ((definitions.map fun d ↦ (d.1, Value.element d.2)).map fun d ↦ (lower d.1, d.2)).lookup key =
      (definitions.lookup key).map Value.element := by
  induction definitions with
  | nil => rfl
  | cons d rest ih =>
    have first := low d List.mem_cons_self
    have others := ih fun d mem ↦ low d (List.mem_cons_of_mem _ mem)
    rw [List.map_cons, List.map_cons, List.lookup_cons, List.lookup_cons, first, others]
    cases key == d.1 <;> rfl

private theorem host_definition {settings : Settings}
    (low : ∀ d ∈ settings.definitions, lower d.1 = d.1)
    (name : String) : (host settings).answer (.definition queue name) =
      (settings.definitions.lookup (lower name)).map Value.element := by
  rw [← lookup_lowered low]
  change Memory.definition? _ queue name = _
  simp [Memory.definition?, Memory.definitions?, Memory.withQueue]

/-- A tag of a definition, with the name of its base or without, is filled with the text that the
settings have for the name in lower case. -/
theorem fillValue_definitionOf (settings : Settings)
    (low : ∀ d ∈ settings.definitions, lower d.1 = d.1) (around : Surroundings) {name text : String}
    (plain : ∀ c ∈ Value.brackets, c ∉ name.toList)
    (found : settings.definitions.lookup (lower name) = some text) {w : World}
    (faithful : w.cache.Faithful) (levels : Nat) {base : String}
    (named : base = "" ∨ base = "definition") :
    ((env settings around).fillValue (levels + 2) ("<" ++ base ++ "[" ++ name ++ "]>")).result w =
      (env settings around).atOnce ("<" ++ base ++ "[" ++ name ++ "]>") (.element text) := by
  have answer : (env settings around).host.answer (.definition queue name) =
      some (.element text) := by
    refine (host_definition low name).trans ?_
    rw [found]
    rfl
  have known : ∃ key returns, (env settings around).registry.base?
      (if base.toList = [] then Chain.unnamedRootKey else lower base) =
        some ⟨key, returns, Handler.ofParam Core.definitionOf⟩ := by
    have key : (if base.toList = [] then Chain.unnamedRootKey else lower base) = "definition" := by
      rcases named with rfl | rfl <;> decide
    rw [key, ← Core.definition_eq]
    exact ⟨_, _, Registry.base?_core_definition⟩
  refine Env.fillValue_group ?_ ?_ known ⟨plain '<' (by decide), plain '>' (by decide)⟩
    (.of_plain (plain '[' (by decide)) (plain ']' (by decide)))
    (Env.makes_definition w.clock rfl answer) faithful levels
  · rcases named with rfl | rfl <;> decide
  · rcases named with rfl | rfl <;> decide

private theorem timeLimit_env (settings : Settings) (around : Surroundings) :
    (env settings around).context.timeLimit = settings.context.timeLimit := by
  rw [Context.timeLimit, Context.timeLimit]
  rfl

/-- Names of one lower-case form have the same brackets. -/
theorem not_mem_of_lower {name : List Char} {n : String}
    (same : lower n = .ofList (lowerChars name))
    {c : Char} (bracket : c ∈ Value.brackets) (plain : c ∉ name) : c ∉ n.toList := by
  have mark : IsMark c := by
    rcases Value.mem_brackets.1 bracket with rfl | rfl | rfl | rfl <;> decide
  have chars : lowerChars n.toList = lowerChars name := String.ofList_injective same
  rw [← mem_lowerChars_iff mark] at plain ⊢
  rwa [chars]

/-- What the settings define can be read: with every line that is accepted as a definition, the tags
of its name in any letter case are filled with the text of the last such line, as it stands
there. -/
theorem fillValue_definition {source : String} {line : List Char} {key value : String}
    {name : List Char} (mem : line ∈ Settings.lines source)
    (accepted : Settings.usable? line = some (key, value))
    (named : Settings.definitionName? key = some name) (plain : ∀ c ∈ Value.brackets, c ∉ name)
    {n : String} (same : lower n = .ofList (lowerChars name)) (args : Arguments)
    (around : Surroundings)
    (limit : (args.override (Settings.ofText source).1).context.timeLimit ≠ .unrepresentable)
    (inTime : ∀ limit,
      (args.override (Settings.ofText source).1).context.timeLimit = .within limit →
        limit.nanos ≠ 0)
    {w : World} (faithful : w.cache.Faithful) (levels : Nat) :
    let env := env (args.override (Settings.ofText source).1) around
    ∃ text, Settings.latest (lower n) some (Settings.mentions source) = some text ∧
      (env.fillValue (levels + 2) ("<[" ++ n ++ "]>")).result w = .ok (.element text) ∧
      (env.fillValue (levels + 2) ("<definition[" ++ n ++ "]>")).result w =
        .ok (.element text) := by
  intro env
  have entry : (key, value) ∈ Settings.entries source := List.mem_filterMap.2 ⟨line, mem, accepted⟩
  obtain ⟨text, last⟩ := Settings.exists_latest (Settings.mem_mentions entry named)
  rw [← same] at last
  obtain ⟨settings, chosen⟩ : ∃ s, s = args.override (Settings.ofText source).1 := ⟨_, rfl⟩
  have definitions : settings.definitions = (Settings.ofText source).1.definitions := by
    rw [chosen]
    rfl
  have low (d : String × String) (mem : d ∈ settings.definitions) : lower d.1 = d.1 :=
    Settings.lower_name (definitions ▸ mem)
  have found : settings.definitions.lookup (lower n) = some text := by
    rw [definitions, Settings.definitions_ofText, Settings.lookup_defined, last]
  have filled (base opening : String) (named : base = "" ∨ base = "definition")
      (opens : "<" ++ base ++ "[" = opening) :
      (env.fillValue (levels + 2) (opening ++ n ++ "]>")).result w = .ok (.element text) := by
    have given := fillValue_definitionOf settings low around
      (fun c mem ↦ not_mem_of_lower same mem (plain c mem)) found faithful levels named
    rw [opens, chosen] at given
    rw [← timeLimit_env _ around] at limit inTime
    exact given.trans (Env.atOnce_eq limit (fun span limits _ ↦ inTime span limits) _ _)
  have unnamed := filled "" "<[" (.inl rfl) (by decide)
  have whole := filled "definition" "<definition[" (.inr rfl) (by decide)
  exact ⟨text, last, unnamed, whole⟩

/-- A name that comes twice, in other letter case, with a text full of marks. -/
theorem fillValue_definition_latest :
    let source := "definitions.Home: first\ntags.workers: 0\ndefinitions.hOME: <element[a]||l@x|&amp;>["
    let env := env (({} : Arguments).override (Settings.ofText source).1) (.ofFile source)
    (env.fillValue 2 "<[HOME]>").result {} = .ok (.element "<element[a]||l@x|&amp;>[") ∧
      (env.fillValue 2 "<definition[HOME]>").result {} =
        .ok (.element "<element[a]||l@x|&amp;>[") := by
  intro source env
  have line : "definitions.Home: first".toList ∈ Settings.lines source := by decide +kernel
  have accepted : Settings.usable? "definitions.Home: first".toList =
      some ("definitions.Home", "first") := by decide +kernel
  have named : Settings.definitionName? "definitions.Home" = some "Home".toList := by decide
  have plain : ∀ c ∈ Value.brackets, c ∉ "Home".toList := by simp [Value.brackets]
  have same : lower "HOME" = .ofList (lowerChars "Home".toList) := by decide +kernel
  have within : (({} : Arguments).override (Settings.ofText source).1).context.timeLimit =
      .within ⟨10 ^ 10⟩ := by decide +kernel
  have latest : Settings.latest (lower "HOME") some (Settings.mentions source) =
      some "<element[a]||l@x|&amp;>[" := by decide +kernel
  obtain ⟨text, last, unnamed, whole⟩ := fillValue_definition line accepted named plain same {}
    (.ofFile source) (by rw [within]; nofun) (by rw [within]; rintro _ ⟨⟩; decide)
    (w := {}) Cache.faithful_empty 0
  obtain rfl := Option.some.inj (latest.symm.trans last)
  exact ⟨unnamed, whole⟩

/-- Under a time limit that is accepted and cannot be represented nothing is filled. -/
theorem fillValue_definition_pastBounds :
    ¬ ∀ (source : String) (line : List Char) (key value : String) (name : List Char) (n : String)
      (around : Surroundings), line ∈ Settings.lines source →
      Settings.usable? line = some (key, value) → Settings.definitionName? key = some name →
      (∀ c ∈ Value.brackets, c ∉ name) → lower n = .ofList (lowerChars name) →
      (∀ limit, (Settings.ofText source).1.context.timeLimit = .within limit → limit.nanos ≠ 0) →
      ∃ text, Settings.latest (lower n) some (Settings.mentions source) = some text ∧
        ((env (Settings.ofText source).1 around).fillValue 2 ("<[" ++ n ++ "]>")).result {} =
          .ok (.element text) := by
  intro claim
  let source := "tags.timeout: 1e300\ndefinitions.a: b"
  have unrepresentable : (Settings.ofText source).1.context.timeLimit = .unrepresentable := by
    decide +kernel
  obtain ⟨text, -, filled⟩ := claim source "definitions.a: b".toList "definitions.a" "b"
    "a".toList "a"
    (.ofFile source) (by decide +kernel) (by decide +kernel) (by decide) (by simp [Value.brackets])
    (by decide +kernel)
    (by rw [unrepresentable]; nofun)
  have low : ∀ d ∈ (Settings.ofText source).1.definitions, lower d.1 = d.1 :=
    fun _ ↦ Settings.lower_name
  have found : (Settings.ofText source).1.definitions.lookup (lower "a") = some "b" := by
    decide +kernel
  have broken := fillValue_definitionOf (Settings.ofText source).1 low (.ofFile source)
    (w := {}) (by simp [Value.brackets]) found Cache.faithful_empty 0 (.inl rfl)
  rw [Env.atOnce, timeLimit_env, unrepresentable] at broken
  have opens : "<" ++ "" ++ "[" = "<[" := by decide
  rw [opens, filled] at broken
  cases broken

end Program

end TextTags
