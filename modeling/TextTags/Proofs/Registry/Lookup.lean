import Mathlib.Data.List.Nodup
import Mathlib.Data.List.Pairwise
import TextTags.Proofs.History
import TextTags.Proofs.Registry

/-!
# What a history of registrations leaves to be found

Each registration sets some places of the registry and leaves the others as they are, so that in
each place the latest one is found that sets it. Where no place is set twice, that is the only one.
-/

namespace TextTags

namespace Registry

variable {κ α : Type} [BEq κ] [LawfulBEq κ]

private theorem lookup_put [DecidableEq κ] (key : κ) (value : α) (table : List (κ × α)) (k : κ) :
    (put key value table).lookup k = if key = k then some value else table.lookup k := by
  unfold put
  rw [List.lookup_cons]
  by_cases same : key = k
  · subst same
    simp
  · rw [if_neg same, beq_false_of_ne (Ne.symm same)]
    dsimp only
    induction table with
    | nil => rfl
    | cons e rest ih =>
      obtain ⟨other, v⟩ := e
      by_cases eq : other = key
      · have ne : k ≠ other := fun h ↦ same (eq.symm.trans h.symm)
        rw [List.filter_cons_of_neg (by simp [eq]), ih, List.lookup_cons, beq_false_of_ne ne]
      · rw [List.filter_cons_of_pos (by simp [eq]), List.lookup_cons, List.lookup_cons, ih]

/-- In a table where each key has one value, what is looked up is what is there. -/
theorem lookup_eq_some_iff_mem {table : List (κ × α)}
    (keys : (table.map Prod.fst).Nodup) {k : κ} {v : α} :
    table.lookup k = some v ↔ (k, v) ∈ table := by
  constructor
  · exact mem_of_lookup
  · intro mem
    obtain ⟨before, after, rfl⟩ := List.append_of_mem mem
    refine List.lookup_eq_some_iff.2 ⟨before, after, rfl, fun e earlier ↦ ?_⟩
    rw [List.map_append, List.map_cons, List.nodup_append] at keys
    have other := keys.2.2 e.1 (List.mem_map_of_mem earlier) k List.mem_cons_self
    exact bne_iff_ne.2 other.symm

/-- A table keeps its keys apart when one is set. -/
theorem nodup_keys_put {key : κ} {value : α} {table : List (κ × α)}
    (keys : (table.map Prod.fst).Nodup) : ((put key value table).map Prod.fst).Nodup := by
  unfold put
  rw [List.map_cons, List.nodup_cons]
  constructor
  · intro mem
    obtain ⟨e, kept, rfl⟩ := List.mem_map.1 mem
    simp at kept
  · exact keys.sublist (List.filter_sublist.map _)

end Registry

namespace Registration

/-- The places of a registry that a registration sets. -/
def places : Registration → List Callee
  | .base name _ _ => [.base (Text.lower name)]
  | .attributes kind names _ _ => names.map fun name ↦ .attr kind (Text.lower name)
  | .fallback kind _ => [.fallback kind]
  | .universal name _ _ => [.universal (Text.lower name)]

/-- The base that a registration gives a name. -/
def base? (key : String) : Registration → Option Base
  | .base name returns handler =>
    if Text.lower name = key then some ⟨key, returns, handler⟩ else none
  | _ => none

/-- The attribute that a registration gives a kind under a name. -/
def attribute? (kind : Kind) (key : String) : Registration → Option Attr
  | .attributes kind' names arity handler =>
    if kind' = kind ∧ key ∈ names.map Text.lower then some ⟨key, arity, handler⟩ else none
  | _ => none

/-- The fallback that a registration gives a kind. -/
def fallback? (kind : Kind) : Registration → Option ValueHandler
  | .fallback kind' handler => if kind' = kind then some handler else none
  | _ => none

/-- The attribute of all kinds that a registration gives a name. -/
def universal? (key : String) : Registration → Option Attr
  | .universal name arity handler =>
    if Text.lower name = key then some ⟨key, arity, handler⟩ else none
  | _ => none

variable {g : Registration} {key : String} {kind : Kind}

private theorem mem_places_of_base? {base : Base} (h : g.base? key = some base) :
    .base key ∈ g.places := by
  cases g with
  | base name returns handler =>
    obtain ⟨same, -⟩ := Option.ite_none_right_eq_some.1 h
    rw [places, same]
    exact List.mem_singleton_self _
  | _ => contradiction

private theorem mem_places_of_attribute? {attr : Attr} (h : g.attribute? kind key = some attr) :
    .attr kind key ∈ g.places := by
  cases g with
  | attributes kind' names arity handler =>
    obtain ⟨⟨rfl, named⟩, -⟩ := Option.ite_none_right_eq_some.1 h
    obtain ⟨name, mem, rfl⟩ := List.mem_map.1 named
    exact List.mem_map_of_mem mem
  | _ => contradiction

private theorem mem_places_of_fallback? {handler : ValueHandler}
    (h : g.fallback? kind = some handler) :
    .fallback kind ∈ g.places := by
  cases g with
  | fallback kind' handler' =>
    obtain ⟨rfl, -⟩ := Option.ite_none_right_eq_some.1 h
    exact List.mem_singleton_self _
  | _ => contradiction

private theorem mem_places_of_universal? {attr : Attr} (h : g.universal? key = some attr) :
    .universal key ∈ g.places := by
  cases g with
  | universal name arity handler =>
    obtain ⟨same, -⟩ := Option.ite_none_right_eq_some.1 h
    rw [places, same]
    exact List.mem_singleton_self _
  | _ => contradiction

end Registration

namespace Registry

variable (r : Registry)

/-- Noting a name that was there leaves the attributes as they are. -/
theorem attributes_remember (again : Bool) (what : String) :
    (r.remember again what).attributes = r.attributes := by
  unfold remember
  split <;> rfl

private theorem fallbacks_remember (again : Bool) (what : String) :
    (r.remember again what).fallbacks = r.fallbacks := by
  unfold remember
  split <;> rfl

private theorem universals_remember (again : Bool) (what : String) :
    (r.remember again what).universals = r.universals := by
  unfold remember
  split <;> rfl

/-- A registration gives its base, and else the one that was there. -/
theorem base?_register (g : Registration) (key : String) :
    (r.register g).base? key = (g.base? key).or (r.base? key) := by
  cases g with
  | base name returns handler =>
    change (put (Text.lower name) _ r.bases).lookup key = _
    rw [lookup_put, Registration.base?]
    by_cases same : Text.lower name = key
    · simp [same]
    · simp [same, base?]
  | attributes kind names arity handler =>
    have same : (r.register (.attributes kind names arity handler)).bases = r.bases :=
      bases_register rfl
    exact congrArg (·.lookup key) same
  | fallback | universal => exact congrArg (·.lookup key) (bases_remember ..)

private theorem attribute?_addAttribute (kind' : Kind) (arity : Arity) (handler : ValueHandler)
    (name : String) (kind : Kind) (key : String) :
    (addAttribute kind' arity handler r name).attribute? kind key =
      if kind' = kind ∧ Text.lower name = key then some ⟨key, arity, handler⟩
      else r.attribute? kind key := by
  change (put (kind', Text.lower name) _ r.attributes).lookup (kind, key) = _
  rw [lookup_put]
  by_cases same : kind' = kind ∧ Text.lower name = key
  · rw [if_pos (Prod.ext same.1 same.2), if_pos same, same.2]
  · rw [if_neg fun eq ↦ same (Prod.mk.inj eq), if_neg same, attribute?]

/-- A registration gives its attribute, and else the one that was there. -/
theorem attribute?_register (g : Registration) (kind : Kind) (key : String) :
    (r.register g).attribute? kind key = (g.attribute? kind key).or (r.attribute? kind key) := by
  cases g with
  | attributes kind' names arity handler =>
    change (names.foldl (addAttribute kind' arity handler) r).attribute? kind key = _
    induction names generalizing r with
    | nil => simp [Registration.attribute?]
    | cons name rest ih =>
      rw [List.foldl_cons, ih, attribute?_addAttribute]
      have named : (kind' = kind ∧ key ∈ (name :: rest).map Text.lower) ↔
          (kind' = kind ∧ key ∈ rest.map Text.lower) ∨ kind' = kind ∧ Text.lower name = key := by
        rw [List.map_cons, List.mem_cons, and_or_left, or_comm, @eq_comm _ key]
      simp only [Registration.attribute?, named]
      by_cases later : kind' = kind ∧ key ∈ rest.map Text.lower
      · simp only [later, and_self, true_or, if_true, Option.some_or]
      · simp only [later, if_false, false_or, Option.none_or]
        split <;> rfl
  | base | fallback | universal => exact congrArg (·.lookup (kind, key)) (attributes_remember ..)

/-- A registration gives its fallback, and else the one that was there. -/
theorem fallback?_register (g : Registration) (kind : Kind) :
    (r.register g).fallback? kind = (g.fallback? kind).or (r.fallback? kind) := by
  cases g with
  | fallback kind' handler =>
    change (put kind' handler r.fallbacks).lookup kind = _
    rw [lookup_put, Registration.fallback?]
    by_cases same : kind' = kind
    · simp [same]
    · simp [same, fallback?]
  | attributes kind' names arity handler =>
    change (names.foldl (addAttribute kind' arity handler) r).fallback? kind = _
    induction names generalizing r with
    | nil => rfl
    | cons name rest ih => exact (ih _).trans (congrArg (·.lookup kind) (fallbacks_remember ..))
  | base | universal => exact congrArg (·.lookup kind) (fallbacks_remember ..)

/-- A registration gives its attribute of all kinds, and else the one that was there. -/
theorem universal?_register (g : Registration) (key : String) :
    (r.register g).universal? key = (g.universal? key).or (r.universal? key) := by
  cases g with
  | universal name arity handler =>
    change (put (Text.lower name) _ r.universals).lookup key = _
    rw [lookup_put, Registration.universal?]
    by_cases same : Text.lower name = key
    · simp [same]
    · simp [same, universal?]
  | attributes kind' names arity handler =>
    change (names.foldl (addAttribute kind' arity handler) r).universal? key = _
    induction names generalizing r with
    | nil => rfl
    | cons name rest ih => exact (ih _).trans (congrArg (·.lookup key) (universals_remember ..))
  | base | fallback => exact congrArg (·.lookup key) (universals_remember ..)

end Registry

/-- Whether a history sets no place of the registry twice. -/
def Registration.NoneTwice (history : List Registration) : Prop := (history.flatMap places).Nodup

namespace Registry

open Registration

variable {history : List Registration}

private theorem eq_of_mem_places (once : NoneTwice history) {g g' : Registration}
    (mem : g ∈ history)
    (mem' : g' ∈ history) {place : Callee} (sets : place ∈ g.places) (sets' : place ∈ g'.places) :
    g = g' := by
  by_contra other
  have : Std.Symm (Function.onFun List.Disjoint places) :=
    ⟨fun _ _ apart _ mem mem' ↦ apart mem' mem⟩
  have apart : Function.onFun List.Disjoint places g g' :=
    (List.nodup_flatMap.1 once).2.forall mem mem' other
  exact apart sets sets'

/-- Where no place is set twice, what is found in a place is what one of the registrations puts
there. -/
theorem look_eq_some_iff {α : Type} (look : Registry → Option α) (gives : Registration → Option α)
    (step : ∀ r g, look (r.register g) = (gives g).or (look r)) (start : look {} = none)
    {place : Callee} (sets : ∀ g a, gives g = some a → place ∈ g.places) (once : NoneTwice history)
    {a : α} : look (ofHistory history) = some a ↔ ∃ g ∈ history, gives g = some a := by
  rw [ofHistory, History.look_foldl look fun r g _ ↦ step r g, start, Option.or_none]
  constructor
  · intro found
    obtain ⟨g, mem, given⟩ := List.exists_of_findSome?_eq_some found
    exact ⟨g, List.mem_reverse.1 mem, given⟩
  · rintro ⟨g, mem, given⟩
    cases found : history.reverse.findSome? gives with
    | none =>
      have missing := List.findSome?_eq_none_iff.1 found g (List.mem_reverse.2 mem)
      rw [given] at missing
      contradiction
    | some b =>
      obtain ⟨g', mem', given'⟩ := List.exists_of_findSome?_eq_some found
      have same := eq_of_mem_places once mem (List.mem_reverse.1 mem') (sets g a given)
        (sets g' b given')
      rw [← given', ← same, given]

/-- Without a name twice, a base is looked up where some registration gives it. -/
theorem base?_ofHistory (once : NoneTwice history) {key : String} {base : Base} :
    (ofHistory history).base? key = some base ↔ ∃ g ∈ history, g.base? key = some base :=
  look_eq_some_iff (·.base? key) (·.base? key) (fun r g ↦ r.base?_register g key) rfl
    (fun _ _ given ↦ mem_places_of_base? given) once

/-- Without a name twice, an attribute is looked up where some registration gives it. -/
theorem attribute?_ofHistory (once : NoneTwice history) {kind : Kind} {key : String} {attr : Attr} :
    (ofHistory history).attribute? kind key = some attr ↔
      ∃ g ∈ history, g.attribute? kind key = some attr :=
  look_eq_some_iff (·.attribute? kind key) (·.attribute? kind key)
    (fun r g ↦ r.attribute?_register g kind key) rfl
    (fun _ _ given ↦ mem_places_of_attribute? given) once

/-- Without a name twice, a fallback is looked up where some registration gives it. -/
theorem fallback?_ofHistory (once : NoneTwice history) {kind : Kind} {handler : ValueHandler} :
    (ofHistory history).fallback? kind = some handler ↔
      ∃ g ∈ history, g.fallback? kind = some handler :=
  look_eq_some_iff (·.fallback? kind) (·.fallback? kind) (fun r g ↦ r.fallback?_register g kind)
    rfl (fun _ _ given ↦ mem_places_of_fallback? given) once

/-- Without a name twice, an attribute of all kinds is looked up where some registration gives it.
-/
theorem universal?_ofHistory (once : NoneTwice history) {key : String} {attr : Attr} :
    (ofHistory history).universal? key = some attr ↔ ∃ g ∈ history, g.universal? key = some attr :=
  look_eq_some_iff (·.universal? key) (·.universal? key) (fun r g ↦ r.universal?_register g key)
    rfl (fun _ _ given ↦ mem_places_of_universal? given) once

/-- The core sets no place twice. -/
theorem noneTwice_core : NoneTwice Core.history := by
  unfold NoneTwice
  decide +kernel

/-- An attribute that the core registers is one of the core. -/
theorem attribute?_core {g : Registration} (mem : g ∈ Core.history) {kind : Kind} {key : String}
    {attr : Attr} (gives : g.attribute? kind key = some attr) :
    core.attribute? kind key = some attr :=
  (attribute?_ofHistory noneTwice_core).2 ⟨g, mem, gives⟩

end Registry

end TextTags
