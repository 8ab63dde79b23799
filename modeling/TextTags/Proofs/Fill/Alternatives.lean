import TextTags.Proofs.Chain.Alternatives
import TextTags.Proofs.Fill.Containment
import TextTags.Proofs.Fill.Naming
import TextTags.Proofs.Fill.Shift
import TextTags.Proofs.Registry.Tables

/-!
# The first alternative with a value

A text of alternatives one inside the other is filled with the value of the first chain that is
fulfilled, whatever its kind, or with what the last text is filled with. Chains before it are
resolved once each, and their failures are not reported; those after it are not resolved at all.
-/

namespace TextTags

open Run Text

namespace Env

section

variable (env : Env) (levels : Nat) (s : Scope) (final : String)

/-- A chain is tried: the text of its tag is cut and the chain is resolved. `rest` are the chains
after it. -/
def attempt (c : Chain) (rest : List Chain) : Run Outcome := do
  let _ ← Run.parse (alternatives final (c :: rest))
  env.resolve (env.fillWithin (levels + rest.length)) s (c.orElse (alternatives final rest))

/-- Reports what the tags of chains were filled with, the last one first. `rest` are the chains
after these. -/
def reportTrials (v : Value) (rest : List Chain) : List Chain → Run Unit
  | [] => return ()
  | c :: cs => do
    reportTrials v rest cs
    env.reportFill (trial final c (cs ++ rest)) v

/-- Chains are tried one after another, and all of them halt. `rest` are the chains after these. -/
inductive PassesOver (rest : List Chain) : List Chain → World → World → Prop
  | nil (w : World) : PassesOver rest [] w w
  | cons {c : Chain} {cs : List Chain} {halt : Halt} {w u u' : World}
    (halts : env.attempt levels s final c (cs ++ rest) w = .ok (.halted halt) u)
    (others : PassesOver rest cs u u') : PassesOver rest (c :: cs) w u'

/-- How a choice of the first chain that is fulfilled ends: with the value of a chain after others
that halt, or with what the last text is filled with after all of them do. After that the tags are
reported as filled, and nothing else happens. Where texts are nested too deep in the chain or in the
last text, there is no value. -/
inductive Picks (w : World) : List Chain → EStateM.Result Stop World Value → Prop
  | chain {before after : List Chain} {c : Chain} {v : Value} {count : Nat} {u u' u'' : World}
    (passed : env.PassesOver levels s final (c :: after) before w u)
    (fulfilled : env.attempt levels s final c after u = .ok (.fulfilled v count) u')
    (reported : env.reportTrials final v after (before ++ [c]) u' = .ok () u'') :
    Picks w (before ++ c :: after) (.ok v u'')
  | text {cs : List Chain} {v : Value} {u u' u'' : World}
    (passed : env.PassesOver levels s final [] cs w u)
    (filled : env.fillWithin levels s final u = .ok v u')
    (reported : env.reportTrials final v [] cs u' = .ok () u'') : Picks w cs (.ok v u'')
  | chainExhausted {before after : List Chain} {c : Chain} {u u' : World}
    (passed : env.PassesOver levels s final (c :: after) before w u)
    (deep : env.attempt levels s final c after u = .error .exhausted u') :
    Picks w (before ++ c :: after) (.error .exhausted u')
  | textExhausted {cs : List Chain} {u u' : World}
    (passed : env.PassesOver levels s final [] cs w u)
    (deep : env.fillWithin levels s final u = .error .exhausted u') :
    Picks w cs (.error .exhausted u')

/-- The laws of alternatives. -/
structure Alternates (cs : List Chain) (w : World) : Prop where
  /-- The value is that of the first chain that is fulfilled, or what the last text is filled
with. -/
  picks : env.Picks levels s final w cs
    (env.fillWithin (levels + cs.length) s (alternatives final cs) w)
  /-- Where handlers fill nothing but parameters, there is a value. -/
  gives : env.registry.AsksOnly (!·.fillsText) →
    (alternatives final cs).length < levels + cs.length →
      ∃ v u, env.fillWithin (levels + cs.length) s (alternatives final cs) w = .ok v u
  /-- A chain comes to the same with its alternative as without one. -/
  alone : env.registry.Satisfies Handler.ByName Handler.ByName → ∀ c ∈ cs, ∀ a fill t u,
    EndsAlike Eq (Outcome.Resembles Eq) (env.resolve fill t (c.orElse a) u) (env.resolve fill t c u)
  /-- Where handlers fill nothing but parameters, all that is reported while a chain is tried is
reported while its parameters are filled. -/
  reports : env.registry.AsksOnly (!·.fillsText) → ∀ only : Event → Prop,
    (∀ e : Event, e.isReport = false → only e) → ∀ c rest,
      (∀ s, ∀ raw ∈ c.params, (env.fillWithin (levels + rest.length) s raw).Leaves only) →
        (env.attempt levels s final c rest).Leaves only

end

section

variable {env : Env} {levels : Nat} {s : Scope} {final : String} {c : Chain} {cs rest : List Chain}
  {w u : World}

/-- A chain that halts may stand before those that something is picked of. Its tag is reported after
theirs. -/
theorem Picks.cons {x : Run Value} {halt : Halt} (picks : env.Picks levels s final u rest (x u))
    (halts : env.attempt levels s final c rest w = .ok (.halted halt) u) :
    env.Picks levels s final w (c :: rest)
      ((do let v ← x; env.reportFill (trial final c rest) v; return v) u) := by
  have first : env.attempt levels s final c (rest ++ []) w = .ok (.halted halt) u := by
    rwa [List.append_nil]
  generalize ends : x u = r at picks
  cases picks with
  | @chain before after d v count _ _ u'' passed fulfilled reported =>
    obtain ⟨_, last⟩ := env.reportFill_quiet (trial final c (before ++ d :: after)) v u''
    rw [bind_of_ok ends, bind_of_ok last]
    change env.Picks levels s final w (c :: before ++ d :: after) _
    refine .chain (.cons halts passed) fulfilled ?_
    rw [List.cons_append, reportTrials, List.append_assoc]
    exact (bind_of_ok reported).trans last
  | @text _ v _ _ u'' passed filled reported =>
    obtain ⟨_, last⟩ := env.reportFill_quiet (trial final c rest) v u''
    rw [bind_of_ok ends, bind_of_ok last]
    refine .text (.cons first passed) filled ?_
    rw [reportTrials, List.append_nil]
    exact (bind_of_ok reported).trans last
  | @chainExhausted before after d _ _ passed deep =>
    rw [bind_of_error ends]
    change env.Picks levels s final w (c :: before ++ d :: after) _
    exact .chainExhausted (.cons halts passed) deep
  | textExhausted passed deep =>
    rw [bind_of_error ends]
    exact .textExhausted (.cons first passed) deep

/-- The text of alternatives is filled by trying the first chain, and by filling the text of the
others if it halts. -/
theorem fillWithin_cons (each : ∀ d ∈ c :: rest, d.StandsAlone)
    (closed : Balanced '<' '>' final.toList) (faithful : w.cache.Faithful) :
    env.fillWithin (levels + (c :: rest).length) s (alternatives final (c :: rest)) w =
      (do
        match ← env.attempt levels s final c rest with
        | .fulfilled v _ =>
          env.reportFill (trial final c rest) v
          return v
        | .halted _ =>
          let v ← env.fillWithin (levels + rest.length) s (alternatives final rest)
          env.reportFill (trial final c rest) v
          return v) w := by
  let fill := env.fillWithin (levels + rest.length)
  let cut := (Run.parse (alternatives final (c :: rest))).last w
  have read : env.fillText fill s (alternatives final (c :: rest)) w =
      env.readTag fill s (trial final c rest) cut :=
    fillText_of_tag (single?_alternatives each closed) faithful
  have other : (trial final c rest).chain.alternative = some (alternatives final rest) :=
    Chain.alternative_orElse c _
  refine read.trans ?_
  -- To try the chain is to resolve that of the tag in the world where the text has been cut.
  unfold readTag
  rw [other]
  rfl

/-- Trying a chain leaves the cache faithful. -/
theorem faithful_of_attempt (faithful : w.cache.Faithful) {outcome : Outcome}
    (h : env.attempt levels s final c rest w = .ok outcome u) : u.cache.Faithful := by
  have scopes : Scope.Shifted 0 0 s s := ⟨rfl, by cases s.token <;> simp⟩
  have start : World.Shifted 0 0 w w := ⟨faithful, faithful, rfl⟩
  have alike := ((alike_parse (alternatives final (c :: rest))).bind fun _ _ _ ↦
    env.resolve_shifted (env.fillWithin_shifted (levels + rest.length)) scopes
      (c.orElse (alternatives final rest))) start
  have ends : EndsAlike (World.Shifted 0 0) Eq (.ok outcome u) (.ok outcome u) := h ▸ alike
  cases ends with
  | ok _ worlds => exact worlds.faithful

private theorem attempt_faultless (limit : env.context.timeLimit ≠ .unrepresentable) :
    (env.attempt levels s final c rest).Faultless :=
  (Faultless.parse _).bind fun _ ↦ resolve_faultless limit s _

/-- Of chains that stand alone the first one that is fulfilled is picked. The induction is on the
chains: each is tried in the world where the one before it halted. -/
theorem picks_of_standsAlone (limit : env.context.timeLimit ≠ .unrepresentable)
    (each : ∀ c ∈ cs, c.StandsAlone) (closed : Balanced '<' '>' final.toList)
    (faithful : w.cache.Faithful) :
    env.Picks levels s final w cs
      (env.fillWithin (levels + cs.length) s (alternatives final cs) w) := by
  induction cs generalizing w with
  | nil =>
    cases filled : env.fillWithin levels s final w with
    | ok v u => exact filled.symm ▸ .text (.nil w) filled rfl
    | error stop u =>
      obtain rfl := fillWithin_faultless limit levels s final w stop u filled
      exact filled.symm ▸ .textExhausted (.nil w) filled
  | cons c rest ih =>
    rw [fillWithin_cons each closed faithful]
    cases tried : env.attempt levels s final c rest w with
    | error stop u =>
      obtain rfl := attempt_faultless limit w stop u tried
      rw [bind_of_error tried]
      exact .chainExhausted (.nil w) tried
    | ok outcome u =>
      rw [bind_of_ok tried]
      cases outcome with
      | fulfilled v count =>
        obtain ⟨_, last⟩ := env.reportFill_quiet (trial final c rest) v u
        dsimp only
        rw [bind_of_ok last]
        exact .chain (.nil w) tried last
      | halted halt =>
        have others := ih (fun d mem ↦ each d (List.mem_cons_of_mem _ mem))
          (faithful_of_attempt faithful tried)
        exact others.cons tried

/-- A chain is resolved the same with an alternative as without one. -/
theorem resolve_orElse (byName : env.registry.Satisfies Handler.ByName Handler.ByName) (c : Chain)
    (a : String) (fill : Scope → String → Run Value) (s : Scope) (w : World) :
    EndsAlike Eq (Outcome.Resembles Eq) (env.resolve fill s (c.orElse a) w)
      (env.resolve fill s c w) := by
  have keys := Chain.map_segments_orElse (g := (·.key)) (fun _ _ ↦ rfl) c a
  have params := Chain.map_segments_orElse (g := (·.param)) (fun _ _ ↦ rfl) c a
  have names := Chain.map_segments_orElse (g := (·.rawKey)) (fun _ _ ↦ rfl) c a
  have same (i : Nat) (t t' : Segment) (found : (c.orElse a).segments[i]? = some t)
      (found' : c.segments[i]? = some t') : t.rawKey = t'.rawKey := by
    simpa [found, found'] using congrArg (·[i]?) names
  have all : (c.orElse a).Resembles (fun _ _ ↦ True) 0 c :=
    Chain.resembles_of_map keys params fun _ _ _ _ _ _ ↦ trivial
  have rest : (c.orElse a).Resembles Eq 1 c :=
    Chain.resembles_of_map keys params fun i t t' _ ↦ same i t t'
  let inner := (env.opening s w).1.deeper
  let f : Frame := ⟨env, inner, fill inner, c⟩
  have alike : EndsAlike Eq (Outcome.Resembles Eq)
      ((f.on (c.orElse a)).runChain (env.opening s w).2) ((f.on c).runChain (env.opening s w).2) :=
    Frame.runChain_resembling all rest byName rfl
  exact resolve_resembling all.length (resolveInline_resembling all.length alike)

/-- Where handlers fill nothing but parameters, all that is reported while a chain is resolved is
reported while its parameters are filled. -/
theorem resolve_leaves_of_params (handlers : env.registry.AsksOnly (!·.fillsText))
    {only : Event → Prop} (own : ∀ e : Event, e.isReport = false → only e)
    {fill : Scope → String → Run Value} {chain : Chain}
    (params : ∀ s, ∀ raw ∈ chain.params, (fill s raw).Leaves only) (s : Scope) :
    (env.resolve fill s chain).Leaves only := by
  have neutral {e : Event} (plain : e.isNeutral) : only e := by
    refine own e ?_
    cases e with
    | error | debug | filled | returned => contradiction
    | _ => rfl
  refine resolve_leaves_of_inline (fun _ left ↦ left) neutral fun s ↦ ?_
  exact resolveInline_leaves handlers (fun step ↦ neutral (Event.isNeutral_of_isStep step))
    (fun _ _ _ ↦ own _ rfl) (params s.deeper) fun text asked ↦ absurd asked Bool.false_ne_true

/-- With a time limit that can be represented, a text of alternatives one inside the other is filled
with the value of the first chain that is fulfilled, or with what the last text is filled with where
none is. The chains before it halt and are not reported, and no others are resolved. -/
theorem fillWithin_alternatives (limit : env.context.timeLimit ≠ .unrepresentable)
    (each : ∀ c ∈ cs, c.StandsAlone) (closed : Matches '<' '>' final.toList)
    (faithful : w.cache.Faithful) (levels : Nat) (s : Scope) :
    env.Alternates levels s final cs w where
  picks := picks_of_standsAlone limit each (closed.balanced (by decide)) faithful
  gives handlers enough := by
    obtain ⟨v, u, filled, -⟩ := fillWithin_ok limit handlers enough faithful s
    exact ⟨v, u, filled⟩
  alone byName c _ a fill t u := resolve_orElse byName c a fill t u
  reports handlers only own c rest params := by
    refine (Leaves.parse (own _ rfl)).bind fun _ ↦ ?_
    exact resolve_leaves_of_params handlers own (Chain.params_orElse c _ ▸ params) s

end

/-- A chain that halts at its second segment, and one that gives a list. -/
theorem fillWithin_alternatives_list :
    let env : Env := { registry := .core }
    let cs : List Chain := [
      { origin := "element[a].nope"
        root := .named "element" "a"
        rest := [.named "nope" none] },
      { origin := "list[a|b]", root := .named "list" "a|b", rest := [] }]
    let filled := env.fillWithin 35 {} (alternatives "z" cs)
    env.Alternates 33 {} "z" cs {} ∧ alternatives "z" cs = "<element[a].nope||<list[a|b]||z>>" ∧
      (filled.result {}).toOption.map (fun v ↦ (v.kind, v.identity)) = some (.list, "li@a|b|") ∧
      (filled.adds {}).countP Event.isReport = 0 := by
  rw [Registry.core_eq_tables]
  intro env cs filled
  have limit : env.context.timeLimit ≠ .unrepresentable := by decide +kernel
  have each (c : Chain) (mem : c ∈ cs) : c.StandsAlone := by
    have all : ∀ c ∈ cs, (Chain.parse c.origin).toOption = some c ∧ c.alternative = none ∧
      c.origin.toList.head? ≠ some '-' ∧ c.origin.toList.getLast? ≠ some '|' ∧
      Matches '<' '>' c.origin.toList := by decide +kernel
    obtain ⟨parses, last, opens, ends, angles⟩ := all c mem
    exact ⟨Chain.parse_of_toOption parses, last, opens, ends, angles⟩
  exact ⟨env.fillWithin_alternatives limit each (by decide +kernel) Cache.faithful_empty 33 {},
    by decide +kernel, by decide +kernel, by decide +kernel⟩

/-- A time limit that is too large to be represented breaks down where a chain is tried, and the
text that should stand in for it is not filled. -/
theorem fillWithin_alternatives_pastBounds :
    ¬ ∀ (env : Env) (final : String) (cs : List Chain) (levels : Nat) (w : World),
      env.registry = .core → (∀ c ∈ cs, c.StandsAlone) → Matches '<' '>' final.toList →
      w.cache.Faithful → (alternatives final cs).length < levels + cs.length →
      ∃ v u, env.fillWithin (levels + cs.length) {} (alternatives final cs) w = .ok v u := by
  intro claim
  let env : Env := { registry := .tables Core.history, context := { timeout := 1e300 } }
  let c : Chain := { origin := "element[a]", root := .named "element" "a", rest := [] }
  have alone : c.StandsAlone := {
    parses := Chain.parse_of_toOption (by decide +kernel)
    last := rfl
    opens := by decide +kernel
    ends := by decide +kernel
    angles := by decide +kernel }
  have each (d : Chain) (mem : d ∈ [c]) : d.StandsAlone := List.mem_singleton.1 mem ▸ alone
  obtain ⟨v, u, filled⟩ := claim env "b" [c] 15 {} Registry.core_eq_tables.symm each
    (by decide +kernel) Cache.faithful_empty (by decide +kernel)
  have broken : ((env.fillWithin (15 + [c].length) {} (alternatives "b" [c])).result {}).isOk =
      false := by
    decide +kernel
  rw [result_of_ok filled] at broken
  exact Bool.false_ne_true broken.symm

end Env

end TextTags
