import TextTags.Proofs.Registry.Lookup

/-!
# Registries with more in them

What is registered under new names leaves what was there to be found. Where a name is known already,
everything that is found under it is what was found before; new attributes are had by values of
kinds only that have no fallback.
-/

namespace TextTags

namespace Registry

/-- Whether a name is registered nowhere. -/
structure Lacks (r : Registry) (key : String) : Prop where
  base? : r.base? key = none
  attribute? : ∀ kind, r.attribute? kind key = none
  universal? : r.universal? key = none

/-- A registry lacks a key that none of its tables has. -/
theorem Lacks.of_keys {r : Registry} {key : String} (bases : ∀ e ∈ r.bases, e.1 ≠ key)
    (attributes : ∀ e ∈ r.attributes, e.1.2 ≠ key) (universals : ∀ e ∈ r.universals, e.1 ≠ key) :
    r.Lacks key where
  base? := List.lookup_eq_none_iff.2 fun e mem ↦ bne_iff_ne.2 (bases e mem).symm
  attribute? _ := List.lookup_eq_none_iff.2 fun e mem ↦
    bne_iff_ne.2 fun same ↦ attributes e mem (congrArg Prod.snd same).symm
  universal? := List.lookup_eq_none_iff.2 fun e mem ↦ bne_iff_ne.2 (universals e mem).symm

end Registry

/-- Whether a registration is one of a base, of an attribute of all kinds or of attributes of
elements, under names that are registered nowhere. -/
def Registration.Adds (r : Registry) : Registration → Prop
  | .base name _ _ => r.Lacks (Text.lower name)
  | .attributes kind names _ _ => kind = .element ∧ ∀ name ∈ names, r.Lacks (Text.lower name)
  | .fallback _ _ => False
  | .universal name _ _ => r.Lacks (Text.lower name)

namespace Registration.Adds

variable {r : Registry} {g : Registration} {key : String}

/-- An addition has nothing to do with the names that are known. -/
theorem base? (h : g.Adds r) (known : ¬r.Lacks key) : g.base? key = none := by
  cases g with
  | base name returns handler =>
    refine if_neg fun same ↦ ?_
    subst same
    exact known h
  | _ => rfl

private theorem universal? (h : g.Adds r) (known : ¬r.Lacks key) : g.universal? key = none := by
  cases g with
  | universal name arity handler =>
    refine if_neg fun same ↦ ?_
    subst same
    exact known h
  | _ => rfl

private theorem attribute? (h : g.Adds r) (known : ¬r.Lacks key) (kind : Kind) :
    g.attribute? kind key = none := by
  cases g with
  | attributes kind' names arity handler =>
    refine if_neg fun ⟨_, named⟩ ↦ ?_
    obtain ⟨name, mem, rfl⟩ := List.mem_map.1 named
    exact known (h.2 name mem)
  | _ => rfl

private theorem attribute?_of_ne {kind : Kind} (h : g.Adds r) (other : kind ≠ .element) :
    g.attribute? kind key = none := by
  cases g with
  | attributes kind' names arity handler => exact if_neg fun ⟨same, _⟩ ↦ other (same.symm.trans h.1)
  | _ => rfl

private theorem fallback? (h : g.Adds r) (kind : Kind) : g.fallback? kind = none := by
  cases g with
  | fallback => exact h.elim
  | _ => rfl

end Registration.Adds

namespace Registry

/-- Whether what is found in a registry is found in another one under all names that are known, and
under all names where a fallback could be meant. -/
structure Extends (r r' : Registry) : Prop where
  fallback? : ∀ kind, r'.fallback? kind = r.fallback? kind
  base? : ∀ {key}, ¬r.Lacks key → r'.base? key = r.base? key
  universal? : ∀ {key}, ¬r.Lacks key → r'.universal? key = r.universal? key
  attribute? : ∀ {key}, ¬r.Lacks key → ∀ kind, r'.attribute? kind key = r.attribute? kind key
  beside : ∀ {kind}, r.fallback? kind ≠ none → ∀ key, r'.attribute? kind key = r.attribute? kind key

/-- A registry extends itself. -/
theorem Extends.refl (r : Registry) : r.Extends r :=
  ⟨fun _ ↦ rfl, fun _ ↦ rfl, fun _ ↦ rfl, fun _ _ ↦ rfl, fun _ _ ↦ rfl⟩

/-- Registrations that have nothing for a place of the registry leave there what was found
before. -/
theorem look_foldl_of_none {α : Type} (look : Registry → Option α)
    {gives : Registration → Option α}
    (step : ∀ r g, look (r.register g) = (gives g).or (look r)) (r : Registry)
    {history : List Registration} (silent : ∀ g ∈ history, gives g = none) :
    look (history.foldl register r) = look r := by
  have nothing : history.reverse.findSome? gives = none :=
    List.findSome?_eq_none_iff.2 fun g mem ↦ silent g (List.mem_reverse.1 mem)
  rw [History.look_foldl look fun r g _ ↦ step r g, nothing, Option.none_or]

/-- Where elements have no fallback, additions extend a registry. -/
theorem extends_foldl {r : Registry} (element : r.fallback? .element = none)
    {additions : List Registration} (new : ∀ g ∈ additions, g.Adds r) :
    r.Extends (additions.foldl register r) where
  fallback? kind := look_foldl_of_none (·.fallback? kind) (fun r g ↦ r.fallback?_register g kind) r
    fun g mem ↦ (new g mem).fallback? kind
  base? {key} known := look_foldl_of_none (·.base? key) (fun r g ↦ r.base?_register g key) r
    fun g mem ↦ (new g mem).base? known
  universal? {key} known := look_foldl_of_none (·.universal? key)
    (fun r g ↦ r.universal?_register g key) r fun g mem ↦ (new g mem).universal? known
  attribute? {key} known kind := look_foldl_of_none (·.attribute? kind key)
    (fun r g ↦ r.attribute?_register g kind key) r fun g mem ↦ (new g mem).attribute? known kind
  beside {kind} has key := by
    have other : kind ≠ .element := fun same ↦ has (same ▸ element)
    exact look_foldl_of_none (·.attribute? kind key) (fun r g ↦ r.attribute?_register g kind key) r
      fun g mem ↦ (new g mem).attribute?_of_ne other

/-- Elements have no fallback in the core. -/
theorem core_fallback?_element : core.fallback? .element = none := by
  have silent : Core.history.all fun g ↦ (g.fallback? .element).isNone := rfl
  refine look_foldl_of_none (·.fallback? .element) (fun r g ↦ r.fallback?_register g .element) {}
    fun g mem ↦ ?_
  exact Option.isNone_iff_eq_none.1 (List.all_eq_true.1 silent g mem)

end Registry

end TextTags
