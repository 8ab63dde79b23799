import TextTags.Proofs.Registry.Lookup

/-!
# What a registry remembers of its history

The calls of registration set places of the registry one after another, a call with several names as
many places as it has names. In each place the last that was put there is found, and a registry is
accepted exactly when no place was set twice; otherwise the first that was set again is told.
-/

namespace TextTags

/-- What is told of a place that was set again. -/
def Callee.again : Callee → String
  | .base name => "tag-base '" ++ name ++ "'"
  | .attr kind name => kind.longName ++ "." ++ name
  | .fallback kind => kind.longName ++ " fallback"
  | .universal name => "universal '" ++ name ++ "'"

namespace Registration

variable {g : Registration}

private theorem isSome_base? (key : String) :
    (g.base? key).isSome = decide (.base key ∈ g.places) := by
  cases g with
  | base name returns handler => simp [base?, places, apply_ite, eq_comm]
  | _ => simp [base?, places]

private theorem isSome_attribute? (kind : Kind) (key : String) :
    (g.attribute? kind key).isSome = decide (.attr kind key ∈ g.places) := by
  cases g with
  | attributes kind' names arity handler =>
    have sets : .attr kind key ∈ (attributes kind' names arity handler).places ↔
        kind' = kind ∧ key ∈ names.map Text.lower := by
      simp only [places, List.mem_map, Callee.attr.injEq]
      tauto
    by_cases put : kind' = kind ∧ key ∈ names.map Text.lower
    · rw [attribute?, if_pos put, decide_eq_true (sets.2 put), Option.isSome_some]
    · rw [attribute?, if_neg put, decide_eq_false (mt sets.1 put), Option.isSome_none]
  | _ => simp [attribute?, places]

private theorem isSome_fallback? (kind : Kind) :
    (g.fallback? kind).isSome = decide (.fallback kind ∈ g.places) := by
  cases g with
  | fallback kind' handler => simp [fallback?, places, apply_ite, eq_comm]
  | _ => simp [fallback?, places]

private theorem isSome_universal? (key : String) :
    (g.universal? key).isSome = decide (.universal key ∈ g.places) := by
  cases g with
  | universal name arity handler => simp [universal?, places, apply_ite, eq_comm]
  | _ => simp [universal?, places]

end Registration

/-- Whether a place is the first in a list that is in it already. -/
def FirstAgain (places : List Callee) (place : Callee) : Prop :=
  ∃ before after, places = before ++ place :: after ∧ before.Nodup ∧ place ∈ before

namespace FirstAgain

variable {places : List Callee} {place other : Callee}

private theorem append (h : FirstAgain places place) (more : List Callee) :
    FirstAgain (places ++ more) place := by
  obtain ⟨before, after, rfl, once, mem⟩ := h
  exact ⟨before, after ++ more, by simp, once, mem⟩

private theorem not_nodup (h : FirstAgain places place) : ¬places.Nodup := by
  obtain ⟨before, after, rfl, -, mem⟩ := h
  intro once
  exact (List.nodup_append.1 once).2.2 place mem place List.mem_cons_self rfl

/-- A list without repetition that a place follows is not longer than another one. -/
theorem eq_of_append {before after before' after' : List Callee}
    (same : before ++ place :: after = before' ++ other :: after') (mem : place ∈ before)
    (once' : before'.Nodup) {shared : List Callee} (longer : before' = before ++ shared) :
    place = other := by
  rw [longer, List.append_assoc] at same
  have rest : place :: after = shared ++ other :: after' := List.append_cancel_left same
  cases shared with
  | nil => exact (List.cons.inj rest).1
  | cons first shared =>
    have first : place = first := (List.cons.inj rest).1
    rw [longer, ← first] at once'
    exact absurd rfl ((List.nodup_append.1 once').2.2 place mem place List.mem_cons_self)

private theorem unique (h : FirstAgain places place) (h' : FirstAgain places other) :
    place = other := by
  obtain ⟨before, after, rfl, once, mem⟩ := h
  obtain ⟨before', after', same, once', mem'⟩ := h'
  rcases List.append_eq_append_iff.1 same with ⟨shared, longer, -⟩ | ⟨shared, longer, -⟩
  · exact eq_of_append same mem once' longer
  · exact (eq_of_append same.symm mem' once longer).symm

end FirstAgain

namespace Registry

open Registration

variable {r : Registry} {g : Registration} {place : Callee} {places : List Callee}

/-- Whether something is found in a place. -/
def occupied (r : Registry) : Callee → Bool
  | .base key => (r.base? key).isSome
  | .attr kind key => (r.attribute? kind key).isSome
  | .fallback kind => (r.fallback? kind).isSome
  | .universal key => (r.universal? key).isSome

/-- A registration occupies its places, and the others stay as they were. -/
theorem occupied_register (r : Registry) (g : Registration) (place : Callee) :
    (r.register g).occupied place = (decide (place ∈ g.places) || r.occupied place) := by
  cases place with
  | base key => simp only [occupied, base?_register, Option.isSome_or, isSome_base?]
  | attr kind key => simp only [occupied, attribute?_register, Option.isSome_or, isSome_attribute?]
  | fallback kind => simp only [occupied, fallback?_register, Option.isSome_or, isSome_fallback?]
  | universal key => simp only [occupied, universal?_register, Option.isSome_or, isSome_universal?]

private theorem duplicates_remember (r : Registry) (again : Bool) (what : String) :
    (r.remember again what).duplicates = r.duplicates ++ if again then [what] else [] := by
  unfold remember
  split <;> simp

/-- A registration of one place remembers it where something was found in it before. -/
theorem duplicates_register (r : Registry) (single : g.places = [place]) :
    (r.register g).duplicates = r.duplicates ++ if r.occupied place then [place.again] else [] := by
  cases g with
  | base | fallback | universal =>
    obtain rfl := List.singleton_inj.1 single
    exact duplicates_remember ..
  | attributes kind names arity handler =>
    obtain ⟨name, rfl, rfl⟩ := List.map_eq_singleton_iff.1 single
    exact duplicates_remember ..

/-- What a registry remembers of the places that were set, in order: which they are, and the first
of them that was set again. -/
structure Recalls (r : Registry) (places : List Callee) : Prop where
  occupied : ∀ place, r.occupied place ↔ place ∈ places
  duplicates : r.duplicates = [] ∧ places.Nodup ∨
    ∃ first rest, r.duplicates = first.again :: rest ∧ FirstAgain places first

namespace Recalls

private theorem empty : Recalls {} [] := by
  refine ⟨fun place ↦ ?_, .inl ⟨rfl, .nil⟩⟩
  cases place <;> exact ⟨nofun, nofun⟩

/-- One place more. -/
theorem register_single (h : r.Recalls places) (single : g.places = [place]) :
    (r.register g).Recalls (places ++ [place]) := by
  constructor
  · intro other
    rw [occupied_register, single, Bool.or_eq_true, h.occupied, List.mem_append,
      decide_eq_true_eq, or_comm]
  · rw [duplicates_register r single]
    rcases h.duplicates with ⟨hno, once⟩ | ⟨first, rest, hne, again⟩
    · rw [hno]
      by_cases mem : place ∈ places
      · rw [if_pos ((h.occupied place).2 mem)]
        exact .inr ⟨place, [], rfl, places, [], rfl, once, mem⟩
      · rw [if_neg (mem ∘ (h.occupied place).1)]
        rw [← List.concat_eq_append]
        exact .inl ⟨rfl, once.concat mem⟩
    · rw [hne]
      exact .inr ⟨first, _, rfl, again.append [place]⟩

private theorem register (h : r.Recalls places) (g : Registration) :
    (r.register g).Recalls (places ++ g.places) := by
  cases g with
  | base | fallback | universal => exact h.register_single rfl
  | attributes kind names arity handler =>
    -- A call with several names does what calls with one name each do in turn.
    induction names generalizing r places with
    | nil => exact (List.append_nil places).symm ▸ h
    | cons name rest ih =>
      have first : (r.register (.attributes kind [name] arity handler)).Recalls
          (places ++ [.attr kind (Text.lower name)]) := h.register_single rfl
      have all := ih first
      rw [List.append_assoc] at all
      exact all

private theorem foldl (h : r.Recalls places) (history : List Registration) :
    (history.foldl Registry.register r).Recalls
      (places ++ history.flatMap Registration.places) := by
  induction history generalizing r places with
  | nil => simpa using h
  | cons g rest ih =>
    rw [List.flatMap_cons, ← List.append_assoc]
    exact ih (h.register g)

private theorem ofHistory (history : List Registration) :
    (Registry.ofHistory history).Recalls (history.flatMap Registration.places) :=
  empty.foldl history

private theorem validate_eq_ok_iff (h : r.Recalls places) : r.validate = .ok () ↔ places.Nodup := by
  unfold validate
  rcases h.duplicates with ⟨hno, once⟩ | ⟨first, rest, hne, again⟩
  · simp [hno, once]
  · simp [hne, again.not_nodup]

private theorem validate_eq_error_iff (h : r.Recalls places) {what : String} :
    r.validate = .error what ↔ ∃ place, FirstAgain places place ∧ place.again = what := by
  unfold validate
  rcases h.duplicates with ⟨hno, once⟩ | ⟨first, rest, hne, again⟩
  · rw [hno]
    exact ⟨nofun, fun ⟨_, again, _⟩ ↦ absurd once again.not_nodup⟩
  · rw [hne]
    constructor
    · intro told
      exact ⟨first, again, Except.error.inj told⟩
    · rintro ⟨place, again', rfl⟩
      rw [again.unique again']

end Recalls

private theorem look_ofHistory {α : Type} (look : Registry → Option α)
    (gives : Registration → Option α)
    (step : ∀ r g, look (r.register g) = (gives g).or (look r)) (start : look {} = none)
    (history : List Registration) :
    look (ofHistory history) = (history.filterMap gives).getLast? := by
  rw [ofHistory, History.look_foldl look fun r g _ ↦ step r g, start, Option.or_none,
    List.getLast?_filterMap]

/-- After a history of registrations, what is found in each place is the last of all that were put
there, with its arity and its handler. The registry is accepted if and only if no place was set
twice, be it by one call with several names, and a name has one place in lower case; otherwise the
first place that was set again is told. -/
theorem ofHistory_latest (history : List Registration) :
    (∀ key, (ofHistory history).base? key = (history.filterMap (·.base? key)).getLast?) ∧
    (∀ kind key, (ofHistory history).attribute? kind key =
      (history.filterMap (·.attribute? kind key)).getLast?) ∧
    (∀ kind, (ofHistory history).fallback? kind =
      (history.filterMap (·.fallback? kind)).getLast?) ∧
    (∀ key, (ofHistory history).universal? key =
      (history.filterMap (·.universal? key)).getLast?) ∧
    ((ofHistory history).validate = .ok () ↔ NoneTwice history) ∧
    ∀ what, (ofHistory history).validate = .error what ↔
      ∃ place, FirstAgain (history.flatMap Registration.places) place ∧ place.again = what := by
  have recalls := Recalls.ofHistory history
  refine ⟨fun key ↦ ?_, fun kind key ↦ ?_, fun kind ↦ ?_, fun key ↦ ?_, recalls.validate_eq_ok_iff,
    fun what ↦ recalls.validate_eq_error_iff⟩
  · exact look_ofHistory (·.base? key) _ (fun r g ↦ r.base?_register g key) rfl history
  · exact look_ofHistory (·.attribute? kind key) _ (fun r g ↦ r.attribute?_register g kind key) rfl
      history
  · exact look_ofHistory (·.fallback? kind) _ (fun r g ↦ r.fallback?_register g kind) rfl history
  · exact look_ofHistory (·.universal? key) _ (fun r g ↦ r.universal?_register g key) rfl history

example (handler : ValueHandler) :
    (ofHistory [.attributes .element ["Twice", "twice"] .none handler]).validate =
      .error "ElementTag.twice" := rfl

end Registry

end TextTags
