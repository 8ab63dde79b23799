import TextTags.Proofs.Cache
import TextTags.Proofs.Core
import TextTags.Proofs.Fill.Comparison
import TextTags.Proofs.Fill.Run
import TextTags.Proofs.Lineage
import TextTags.Proofs.Registry.Tables

/-!
# Where the texts that are filled come from

With the core alone, filling a text fills nothing but texts nested in it, whatever the host answers
and whatever tags come to. So there is an end to it, as there is to every line of containers that is
looked up on the way, and every text that is cut is a stretch of the one that filling began with.

That filling ends is stated as agreement: any two allowances of levels of nesting that are larger
than the text is long come to the same, and neither runs out.
-/

namespace TextTags

open Run

/-- A property of worlds that is kept by every event but that of a text being cut, and by the
cutting of certain texts. -/
structure World.Kept (Inv : World → Prop) (cut : String → Prop) : Prop where
  event : ∀ {e : Event} {w : World}, (∀ text, e ≠ .parsed text) → Inv w →
    Inv { w with trace := w.trace ++ [e] }
  parse : ∀ {text : String} {w : World}, cut text → Inv w →
    Inv { w with trace := w.trace ++ [.parsed text], cache := (w.cache.getOrParse text).2 }
  faithful : ∀ {w : World}, Inv w → w.cache.Faithful

namespace Run

variable {α β : Type} {Inv : World → Prop} {cut : String → Prop} {stops : Stop → Prop}

/-- From every world with a property, the two computations come to the same and keep the property,
and break off in no other than certain ways. -/
def Agree (Inv : World → Prop) (stops : Stop → Prop) (x y : Run α) : Prop :=
  ∀ ⦃w⦄, Inv w → x w = y w ∧ Inv (x.last w) ∧ ∀ stop, x.result w = .error stop → stops stop

namespace Agree

private theorem pure (a : α) : Agree Inv stops (pure a) (pure a) := fun _ inv ↦ ⟨rfl, inv, nofun⟩

private theorem throw {stop : Stop} (h : stops stop) :
    Agree Inv stops (throw stop : Run α) (throw stop) := fun _ inv ↦
  ⟨rfl, inv, fun _ eq ↦ Except.error.inj eq ▸ h⟩

private theorem bind {x y : Run α} {f g : α → Run β} (h : Agree Inv stops x y)
    (next : ∀ a, Agree Inv stops (f a) (g a)) : Agree Inv stops (x >>= f) (y >>= g) := by
  intro w inv
  obtain ⟨same, kept, stop⟩ := h inv
  cases ends : x w with
  | ok a u =>
    rw [last_of_ok ends] at kept
    have other : y w = .ok a u := same.symm.trans ends
    rw [result, last, bind_of_ok ends, bind_of_ok other]
    exact next a kept
  | error s u =>
    rw [last_of_error ends] at kept
    have other : y w = .error s u := same.symm.trans ends
    rw [result, last, bind_of_error ends, bind_of_error other]
    exact ⟨rfl, kept, fun _ eq ↦ Except.error.inj eq ▸ stop s (result_of_error ends)⟩

private theorem contain {x y : Run α} (recover : String → α) (h : Agree Inv stops x y) :
    Agree Inv stops (x.contain recover) (y.contain recover) := by
  intro w inv
  obtain ⟨same, kept, stop⟩ := h inv
  unfold result last Run.contain at *
  rw [← same]
  cases ends : x w with
  | ok a u =>
    rw [ends] at kept
    exact ⟨rfl, kept, nofun⟩
  | error s u =>
    rw [ends] at kept stop
    cases s with
    | fault message => exact ⟨rfl, kept, nofun⟩
    | exhausted => exact ⟨rfl, kept, stop⟩

private theorem get {f g : World → Run β} (h : ∀ w, Agree Inv stops (f w) (g w)) :
    Agree Inv stops (get >>= f) (get >>= g) := fun w inv ↦ h w inv

private theorem emit (kept : World.Kept Inv cut) {e : Event} (other : ∀ text, e ≠ .parsed text) :
    Agree Inv stops (emit e) (emit e) := fun _ inv ↦ ⟨rfl, kept.event other inv, nofun⟩

private theorem parse (kept : World.Kept Inv cut) {text : String} (known : cut text)
    {f g : Shared → Run β} (next : ∀ shared : Shared, shared.parsed = Parsed.ofText text →
      Agree Inv stops (f shared) (g shared)) :
    Agree Inv stops (Run.parse text >>= f) (Run.parse text >>= g) := fun _ inv ↦
  next _ (Cache.parsed_getOrParse (kept.faithful inv) text) (kept.parse known inv)

end Agree

end Run

section

variable {Inv : World → Prop} {cut : String → Prop} {stops : Stop → Prop}

/-- The comparison of runs that come to the same. -/
def Comparison.agree (kept : World.Kept Inv cut) (faults : ∀ message, stops (.fault message)) :
    Comparison where
  Rel := Agree Inv stops
  pure := .pure
  fault message := .throw (faults message)
  bind := .bind
  contain := .contain
  emit := fun {e} plain ↦ .emit kept fun text eq ↦ by
    rw [eq] at plain
    contradiction

namespace Env

variable {env : Env} {fill fill' : Scope → String → Run Value}

/-- Resolving a chain of the core fills no text but the parameters. -/
theorem resolveInline_agree (core : env.registry = .core) (kept : World.Kept Inv cut)
    (faults : ∀ message, stops (.fault message)) {chain : Chain}
    (fills : ∀ s, ∀ raw ∈ chain.params, Agree Inv stops (fill s raw) (fill' s raw)) (s : Scope) :
    Agree Inv stops (env.resolveInline fill s chain) (env.resolveInline fill' s chain) := by
  let f : Frame := ⟨env, s.deeper, fill s.deeper, chain⟩
  let f' : Frame := ⟨env, s.deeper, fill' s.deeper, chain⟩
  have passed? : Agree Inv stops f.passed? f'.passed? := .get fun _ ↦ .pure _
  have frames : Frame.Compared (.agree kept faults) (·.isPlain) f f' := {
    registry := .refl _
    handlers := core ▸ Registry.core_plain
    chain := rfl
    passed? := passed?
    answer := Frame.answer_compared rfl rfl rfl passed? (fills s.deeper)
    returned := fun _ _ _ ↦ .emit kept nofun }
  exact resolveInline_compared frames

private theorem resolveTimed_agree (faults : ∀ message, stops (.fault message))
    (kept : World.Kept Inv cut)
    {chain : Chain} (inline : ∀ s, Agree Inv stops (env.resolveInline fill s chain)
      (env.resolveInline fill' s chain)) (s : Scope) :
    Agree Inv stops (env.resolveTimed fill s chain) (env.resolveTimed fill' s chain) := by
  refine resolveTimed_compared (C := Comparison.agree kept faults) rfl (inline s) fun _ limit ↦ ?_
  refine .get fun w ↦ .bind (.emit kept nofun) fun _ ↦ .bind (inline _) fun outcome ↦ ?_
  refine .bind (.emit kept nofun) fun _ ↦ .get fun w' ↦ ?_
  split <;> exact .pure _

/-- Filling a text with the core fills no text but those nested in it. -/
theorem fillText_agree (core : env.registry = .core) (kept : World.Kept Inv cut)
    (faults : ∀ message, stops (.fault message)) {text : String} (known : cut text)
    (fills : ∀ s, ∀ inner ∈ (Parsed.ofText text).nested,
      Agree Inv stops (fill s inner) (fill' s inner))
    (s : Scope) : Agree Inv stops (env.fillText fill s text) (env.fillText fill' s text) := by
  have readTag (tag : Tag) (mem : .tag tag ∈ (Parsed.ofText text).fragments) :
      Agree Inv stops (env.readTag fill s tag) (env.readTag fill' s tag) := by
    have inner (s : Scope) (other : String) (nested : other ∈ tag.chain.nested) :
        Agree Inv stops (fill s other) (fill' s other) :=
      fills s other (Parsed.mem_nested mem nested)
    have timed := resolveTimed_agree faults kept (resolveInline_agree core kept faults
      fun s raw param ↦ inner s raw (List.mem_append_left _ param)) s
    have resolve : Agree Inv stops (env.resolve fill s tag.chain) (env.resolve fill' s tag.chain) :=
      .get fun w ↦ .bind (.emit kept nofun) fun _ ↦ .bind timed fun _ ↦ .get fun w' ↦
        .bind (.emit kept nofun) fun _ ↦ .pure _
    exact readTag_compared (C := Comparison.agree kept faults) (.of_context rfl) resolve
      fun other alternative ↦
        inner s other (List.mem_append_right _ (Option.mem_toList.2 alternative))
  refine fillText_compared (C := Comparison.agree kept faults) (.of_context rfl) text
    (· = Parsed.ofText text)
    (fun next ↦ .parse kept known fun shared parsed ↦ next shared shared rfl parsed) ?_
  rintro _ rfl tag mem
  exact readTag tag mem

/-- Two allowances of levels that are larger than the text is long come to the same, and do not run
out. -/
theorem fillWithin_agree (core : env.registry = .core) (kept : World.Kept Inv cut)
    (stretches : ∀ text inner : String, inner.toList <:+: text.toList → cut text → cut inner)
    {text : String} (known : cut text) {levels levels' : Nat} (enough : text.length < levels)
    (enough' : text.length < levels') (s : Scope) :
    Agree Inv (· ≠ .exhausted) (env.fillWithin levels s text) (env.fillWithin levels' s text) := by
  induction levels generalizing levels' text s with
  | zero => contradiction
  | succ levels ih =>
    obtain ⟨levels', rfl⟩ : ∃ n, levels' = n + 1 :=
      Nat.exists_eq_add_one.2 (Nat.zero_lt_of_lt enough')
    refine fillText_agree core kept (fun _ ↦ nofun) known (fun s inner nested ↦ ?_) s
    obtain ⟨stretch, shorter⟩ := Parsed.nested_ofText nested
    exact ih (stretches text inner stretch known) (by omega) (by omega) s

end Env

end

private theorem Cache.isSome_find?_getOrParse {c : Cache} {text key : String}
    (h : ((c.getOrParse text).2.find? key).isSome) : (c.find? key).isSome ∨ key = text := by
  unfold Cache.getOrParse insertIfAbsent at h
  split at h
  · exact .inl h
  · dsimp only at h
    rw [find?, List.lookup_cons] at h
    split at h
    · next same => exact .inr (eq_of_beq same)
    · exact .inl h

/-- A world that filling can come to: all texts that have been cut since the start are stretches of
one. -/
structure World.CutFrom (start : World) (text : String) (w : World) : Prop where
  faithful : w.cache.Faithful
  keys : ∀ key, (w.cache.find? key).isSome →
    (start.cache.find? key).isSome ∨ key.toList <:+: text.toList
  trace : ∃ events, w.trace = start.trace ++ events ∧
    ∀ key, .parsed key ∈ events → key.toList <:+: text.toList

private theorem World.kept_cutFrom (start : World) (text : String) :
    World.Kept (World.CutFrom start text) (·.toList <:+: text.toList) where
  event {e w} other inv := by
    obtain ⟨events, eq, stretches⟩ := inv.trace
    refine ⟨inv.faithful, inv.keys, events ++ [e], by simp [eq], fun key mem ↦ ?_⟩
    rcases List.mem_append.1 mem with mem | mem
    · exact stretches key mem
    · exact absurd (List.mem_singleton.1 mem).symm (other key)
  parse {inner w} stretch inv := by
    obtain ⟨events, eq, stretches⟩ := inv.trace
    refine ⟨inv.faithful.getOrParse inner, fun key found ↦ ?_, events ++ [.parsed inner],
      by simp [eq], fun key mem ↦ ?_⟩
    · rcases Cache.isSome_find?_getOrParse found with old | rfl
      · exact inv.keys key old
      · exact .inr stretch
    · rcases List.mem_append.1 mem with mem | mem
      · exact stretches key mem
      · obtain rfl := Event.parsed.inj (List.mem_singleton.1 mem)
        exact stretch
  faithful inv := inv.faithful

/-- Nothing that happens makes a cache unfaithful. -/
theorem World.kept_faithful : World.Kept (fun w ↦ w.cache.Faithful) fun _ ↦ True where
  event _ inv := inv
  parse _ inv := inv.getOrParse _
  faithful inv := inv

/-- The services of every program are those of a host. With the core alone, whatever the host
answers: the line of every container ends; the texts nested in a text are shorter stretches of it;
to fill a text, nothing matters but how the texts nested in it are filled; so filling ends, with any
allowance of levels larger than the text is long; and all that is cut and all that the cache gains
on the way are stretches of the text. -/
theorem Env.fillWithin_nested (env : Env) (core : env.registry = .core) (s : Scope) (text : String)
    {w : World} (faithful : w.cache.Faithful) :
    (∀ services : Services, services.Addressable → ∃ h : Host, h.toServices = services) ∧
    (∀ name, ∃! line, Container.Inherits env.host.container [] (some name) line) ∧
    (∀ u : String, ∀ inner ∈ (Parsed.ofText u).nested,
      inner.toList <:+: u.toList ∧ inner.length < u.length) ∧
    (∀ (u : String) (fill fill' : Scope → String → Run Value),
      (∀ s, ∀ inner ∈ (Parsed.ofText u).nested,
        Agree (fun w ↦ w.cache.Faithful) (fun _ ↦ True) (fill s inner) (fill' s inner)) →
      ∀ s, Agree (fun w ↦ w.cache.Faithful) (fun _ ↦ True) (env.fillText fill s u)
        (env.fillText fill' s u)) ∧
    ∀ levels, text.length < levels →
      (env.fillWithin levels s text).result w ≠ .error .exhausted ∧
      env.fillWithin levels s text w = env.fillWithin (text.length + 1) s text w ∧
      (∀ key, .parsed key ∈ (env.fillWithin levels s text).adds w → key.toList <:+: text.toList) ∧
      ∀ key, (((env.fillWithin levels s text).last w).cache.find? key).isSome →
        (w.cache.find? key).isSome ∨ key.toList <:+: text.toList := by
  refine ⟨fun _ ↦ Services.exists_host, fun name ↦ ⟨_, Host.inherits_iff.2 rfl, fun _ ↦
    Host.inherits_iff.1⟩, fun u inner nested ↦ Parsed.nested_ofText nested,
    fun u fill fill' same s ↦ ?_, fun levels enough ↦ ?_⟩
  · exact fillText_agree core World.kept_faithful (fun _ ↦ trivial) trivial same s
  · have start : World.CutFrom w text w := ⟨faithful, fun _ ↦ .inl, [], by simp, by simp⟩
    have stretches (outer inner : String) (within : inner.toList <:+: outer.toList) :
        outer.toList <:+: text.toList → inner.toList <:+: text.toList := within.trans
    obtain ⟨same, kept, stop⟩ := fillWithin_agree core (World.kept_cutFrom w text) stretches
      List.infix_rfl enough (Nat.lt_succ_self _) s start
    refine ⟨fun out ↦ stop _ out rfl, same, fun key mem ↦ ?_, kept.keys⟩
    obtain ⟨events, eq, cut⟩ := kept.trace
    rw [adds, eq, List.drop_left] at mem
    exact cut key mem

/-- A host whose context values look like tags. -/
def Host.tagged : Host where
  contextValue _ _ := some (.element "<element[<none>]>")

/-- A container that inherits itself, in other letter case. -/
def Services.circular : Services where
  container name := if Text.lower name = "a" then some ⟨"a", some "A", []⟩ else none

private theorem Services.circular_addressable : Services.circular.Addressable := by
  intro name c parent found next
  unfold circular at found
  dsimp only at found
  split at found
  · cases found
    cases next
    decide +kernel
  · contradiction

/-- A context value that looks like a tag is put in as it is, and not filled again as a
parameter. -/
theorem Env.fillWithin_nested_tagged :
    let env : Env := { registry := .core, host := .tagged }
    let text := "<element[<context.name>]>"
    let filled := env.fillWithin 27 {} text
    ({} : World).cache.Faithful ∧ text.length < 27 ∧
      (∃ h : Host, h.toServices = .circular) ∧
      (filled.result {}).toOption.map Value.identity = some "<element[<none>]>" ∧
      filled.result {} ≠ .error .exhausted ∧
      ∀ key, ((filled.last {}).cache.find? key).isSome → key.toList <:+: text.toList := by
  rw [Registry.core_eq_tables]
  intro env text filled
  have core : env.registry = .core := Registry.core_eq_tables.symm
  have faithful : ({} : World).cache.Faithful := Cache.faithful_empty
  obtain ⟨hosts, -, -, -, ends⟩ := env.fillWithin_nested core {} text faithful
  have enough : text.length < 27 := by decide +kernel
  obtain ⟨done, -, -, keys⟩ := ends 27 enough
  refine ⟨faithful, enough, hosts _ Services.circular_addressable, by decide +kernel, done,
    fun key found ↦ ?_⟩
  exact (keys key found).resolve_left (by simp [Cache.find?])

end TextTags
