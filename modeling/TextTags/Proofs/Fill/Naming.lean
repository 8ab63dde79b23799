import TextTags.Proofs.Chain.Parts
import TextTags.Proofs.Fill.Resemblance
import TextTags.Proofs.Registry.Tables

/-!
# Names in any letter case

The letter case of names does not matter, and a root without a name is that of definitions: chains
whose segments are looked up under the same names and have the same parameters come to the same,
but for the name that a halt may report as it was written.
-/

namespace TextTags

open Text Run

namespace Chain

/-- The names under which segments are looked up, from those written for them: in lower case, and
the name of definitions for a root without one. -/
def lookupKeys : List String → List String
  | [] => []
  | root :: rest => (if root = "" then unnamedRootKey else lower root) :: rest.map lower

/-- Whether the segments of a chain are looked up under the names written for them. -/
def Named (c : Chain) : Prop := c.segments.map (·.key) = lookupKeys (c.segments.map (·.rawKey))

private theorem key_of_parseSegment {part : List Char} {s : Segment}
    (h : parseSegment part = .ok s) :
    s.key = lower s.rawKey := by
  have named (name : List Char) (param : Option (List Char)) :
      (segment name param).key = lower (segment name param).rawKey := by
    simp only [segment, lower, String.toList_ofList]
  unfold parseSegment at h
  split at h
  · exact Except.ok.inj h ▸ named _ _
  · split at h
    · contradiction
    · exact Except.ok.inj h ▸ named _ _
    · contradiction

private theorem named_of_parseChars {raw : List Char} {c : Chain} (h : parseChars raw = .ok c) :
    c.Named := by
  obtain ⟨parts, root, rest, -, parsed, read⟩ := read_of_parseChars h
  obtain ⟨first, others⟩ := Prod.mk.inj read
  have named (s : Segment) (mem : s ∈ root :: rest) : s.key = lower s.rawKey := by
    obtain ⟨part, -, eq⟩ := exists_of_mapM_parseSegment parsed s mem
    exact key_of_parseSegment eq
  have rootKey : (rootSegment root).key =
      if (rootSegment root).rawKey = "" then unnamedRootKey
      else lower (rootSegment root).rawKey := by
    have own := named root List.mem_cons_self
    unfold rootSegment
    split
    · rfl
    · exact own
  have restKeys : rest.map (·.key) = (rest.map (·.rawKey)).map lower := by
    rw [List.map_map]
    exact List.map_congr_left fun s mem ↦ named s (List.mem_cons_of_mem _ mem)
  rw [Named, Chain.segments, first, others, map_withFallback (fun _ _ ↦ rfl),
    map_withFallback (fun _ _ ↦ rfl), List.map_cons, List.map_cons, lookupKeys, rootKey, restKeys]

/-- A chain that is parsed is one without a defect. -/
theorem parse_of_toOption {raw : String} {c : Chain} (h : (parse raw).toOption = some c) :
    parse raw = .ok c := by
  cases read : parse raw with
  | error => simp [read, Except.toOption] at h
  | ok chain => simpa [read, Except.toOption] using h

/-- Chains of the same names and parameters resemble each other. -/
theorem resembles_of_map {N : String → String → Prop} {k : Nat} {c c' : Chain}
    (keys : c.segments.map (·.key) = c'.segments.map (·.key))
    (params : c.segments.map (·.param) = c'.segments.map (·.param))
    (names : ∀ i s s', k ≤ i → c.segments[i]? = some s → c'.segments[i]? = some s' →
      N s.rawKey s'.rawKey) : c.Resembles N k c' where
  length := by simpa [Chain.length] using congrArg List.length keys
  segments i le := by
    have key := congrArg (·[i]?) keys
    have param := congrArg (·[i]?) params
    have name := names i
    simp only [List.getElem?_map] at key param
    generalize c.segments[i]? = s, c'.segments[i]? = s' at key param name ⊢
    cases s with
    | none =>
      cases s' with
      | none => exact .none
      | some s' => contradiction
    | some s =>
      cases s' with
      | none => contradiction
      | some s' => exact .some ⟨Option.some.inj key, Option.some.inj param, name s s' le rfl rfl⟩

private theorem Named.key_getElem? {c : Chain} (h : c.Named) {i : Nat} {s : Segment}
    (found : c.segments[i + 1]? = some s) : s.key = lower s.rawKey := by
  have same := congrArg (·[i + 1]?) h
  simp only [lookupKeys, Chain.segments, List.map_cons, List.getElem?_cons_succ, List.getElem?_map]
    at same found
  simpa [found] using same

end Chain

namespace Env

variable {env : Env} {c c' : Chain}

/-- What is read is named. Named chains whose segments are looked up under the same names, with the
same parameters, come to one end from one world: the same value, the same breakdown, or halts at one
segment that differ at most in the letter case of the name reported. -/
theorem resolve_named (core : env.registry = .core) (levels : Nat) (s : Scope) (w : World) :
    (∀ raw c, Chain.parse raw = .ok c → c.Named) ∧
    ∀ c c' : Chain, c.Named → c'.Named → c.segments.map (·.key) = c'.segments.map (·.key) →
      c.segments.map (·.param) = c'.segments.map (·.param) →
      EndsAlike Eq (Outcome.Resembles fun a b ↦ lower a = lower b)
        (env.resolve (env.fillWithin levels) s c w)
        (env.resolve (env.fillWithin levels) s c' w) := by
  refine ⟨fun raw c ↦ Chain.named_of_parseChars, fun c c' named named' keys params ↦ ?_⟩
  have all : c.Resembles (fun _ _ ↦ True) 0 c' :=
    Chain.resembles_of_map keys params fun _ _ _ _ _ _ ↦ trivial
  have rest : c.Resembles (fun a b ↦ lower a = lower b) 1 c' := by
    refine Chain.resembles_of_map keys params fun i s s' le found found' ↦ ?_
    obtain ⟨i, rfl⟩ := Nat.exists_eq_add_of_le' le
    rw [← named.key_getElem? found, ← named'.key_getElem? found']
    have key := congrArg (·[i + 1]?) keys
    simpa [found, found'] using key
  let inner := (env.opening s w).1.deeper
  let f : Frame := ⟨env, inner, env.fillWithin levels inner, c⟩
  have byName : f.env.registry.Satisfies Handler.ByName Handler.ByName :=
    core ▸ Registry.core_byName
  have alike : EndsAlike Eq (Outcome.Resembles fun a b ↦ lower a = lower b)
      ((f.on c).runChain (env.opening s w).2) ((f.on c').runChain (env.opening s w).2) :=
    Frame.runChain_resembling all rest byName rfl
  exact resolve_resembling all.length (resolveInline_resembling all.length alike)

/-- A nameless root and names in other letter case, after which a name that nothing knows halts both
chains. -/
theorem resolve_named_unknown :
    let env : Env := {
      registry := .core
      host := { definition := fun _ _ ↦ some (.element "gold") }
      context := { site := { queue := some "main" } } }
    let resolve := env.resolve (env.fillWithin 3) {}
    let c : Chain := {
      origin := "[prize].TO_UPPERCASE.Nope"
      root := ⟨"definition", "", some "prize", none⟩
      rest := [⟨"to_uppercase", "TO_UPPERCASE", none, none⟩, ⟨"nope", "Nope", none, none⟩] }
    let c' : Chain := {
      origin := "Definition[prize].to_uppercase.nOPE"
      root := ⟨"definition", "Definition", some "prize", none⟩
      rest := [⟨"to_uppercase", "to_uppercase", none, none⟩, ⟨"nope", "nOPE", none, none⟩] }
    Chain.parse c.origin = .ok c ∧ Chain.parse c'.origin = .ok c' ∧
      Outcome.haltsAt 2 ((resolve c).result {}) ∧
      EndsAlike Eq (Outcome.Resembles fun a b ↦ lower a = lower b)
        (resolve c {}) (resolve c' {}) := by
  rw [Registry.core_eq_tables]
  intro env resolve c c'
  have parsed : Chain.parse c.origin = .ok c := Chain.parse_of_toOption (by decide +kernel)
  have parsed' : Chain.parse c'.origin = .ok c' :=
    Chain.parse_of_toOption (by decide +kernel)
  have core : env.registry = .core := Registry.core_eq_tables.symm
  obtain ⟨named, alike⟩ := env.resolve_named core 3 {} {}
  exact ⟨parsed, parsed', by decide +kernel,
    alike c c' (named _ _ parsed) (named _ _ parsed') rfl rfl⟩

end Env

end TextTags
