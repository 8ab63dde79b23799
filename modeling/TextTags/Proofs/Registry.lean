import TextTags.Core.Registry
import TextTags.Fill.World

/-!
# What registration leaves to be found

A base is looked up among the bases alone, whatever else is registered. What the handlers of all
registrations have in common the handlers of the registry have, whatever replaces what.
-/

namespace TextTags

/-- Whether a registration is one of a base. -/
def Registration.isBase : Registration → Bool
  | .base .. => true
  | _ => false

namespace Registry

/-- Noting a name that was there leaves the bases as they are. -/
theorem bases_remember (r : Registry) (again : Bool) (what : String) :
    (r.remember again what).bases = r.bases := by
  unfold remember
  split <;> rfl

/-- Only the registration of a base changes the bases. -/
theorem bases_register {r : Registry} {registration : Registration}
    (h : registration.isBase = false) : (r.register registration).bases = r.bases := by
  cases registration with
  | base => contradiction
  | attributes kind names arity handler =>
    change (names.foldl (addAttribute kind arity handler) r).bases = r.bases
    induction names generalizing r with
    | nil => rfl
    | cons name rest ih => exact (ih h).trans (bases_remember _ _ _)
  | fallback => exact bases_remember _ _ _
  | universal => exact bases_remember _ _ _

private theorem bases_foldl {r : Registry} {history : List Registration}
    (h : history.all fun registration ↦ !registration.isBase) :
    (history.foldl register r).bases = r.bases := by
  induction history generalizing r with
  | nil => rfl
  | cons registration rest ih =>
    rw [List.all_cons, Bool.and_eq_true] at h
    exact (ih h.2).trans (bases_register (by simpa using h.1))

/-- The bases of the core are those that its list of bases registers. -/
theorem base?_core (key : String) : core.base? key = (ofHistory Core.bases).base? key := by
  have rest : (Core.elementAttributes ++ Core.listAttributes ++ Core.mapAttributes ++
      Core.durationAttributes ++ Core.timeAttributes ++ Core.queueAttributes ++
      Core.scriptAttributes ++ Core.customAttributes ++ Core.universalAttributes).all
        fun registration ↦ !registration.isBase := rfl
  have split : Core.history = Core.bases ++ (Core.elementAttributes ++ Core.listAttributes ++
      Core.mapAttributes ++ Core.durationAttributes ++ Core.timeAttributes ++
      Core.queueAttributes ++ Core.scriptAttributes ++ Core.customAttributes ++
      Core.universalAttributes) := by
    simp only [Core.history, List.append_assoc]
  rw [base?, core, ofHistory, split, List.foldl_append, bases_foldl rest]
  rfl

/-- The base of elements. -/
theorem base?_core_element : core.base? "element" = some ⟨"element", .element,
    (do return .element (← Handler.Attempt.paramText 0) : Handler.Attempt Value)⟩ := by
  rw [base?_core]
  rfl

/-- The base of custom objects. -/
theorem base?_core_custom :
    core.base? "custom" = some ⟨"custom", .custom, Handler.Attempt.paramAs .custom 0⟩ := by
  rw [base?_core]
  rfl

/-- The base of definitions. -/
theorem base?_core_definition :
    core.base? "definition" = some ⟨"definition", .element, Core.definition⟩ := by
  rw [base?_core]
  rfl

/-- The base of choices. -/
theorem base?_core_tern : core.base? "tern" = some ⟨"tern", .element, Core.choice⟩ := by
  rw [base?_core]
  rfl

end Registry

/-- Registries in which the same is found. -/
structure Registry.Agree (r r' : Registry) : Prop where
  base? : ∀ key, r'.base? key = r.base? key
  attribute? : ∀ kind key, r'.attribute? kind key = r.attribute? kind key
  fallback? : ∀ kind, r'.fallback? kind = r.fallback? kind
  universal? : ∀ key, r'.universal? key = r.universal? key
  near : ∀ kind key hasParam, r'.near kind key hasParam = r.near kind key hasParam

/-- A registry agrees with itself. -/
theorem Registry.Agree.refl (r : Registry) : r.Agree r :=
  ⟨fun _ ↦ rfl, fun _ _ ↦ rfl, fun _ ↦ rfl, fun _ ↦ rfl, fun _ _ _ ↦ rfl⟩

/-- Whether a registered handler has a property under each name by which it will be called. That of
a base is given whatever value there is. -/
def Registration.Has (holds : Callee → ValueHandler → Prop) : Registration → Prop
  | .base name _ handler => holds (.base (Text.lower name)) fun _ ↦ handler
  | .attributes kind names _ handler => ∀ name ∈ names, holds (.attr kind (Text.lower name)) handler
  | .fallback kind handler => holds (.fallback kind) handler
  | .universal name _ handler => holds (.universal (Text.lower name)) handler

namespace Registry

/-- Whether the handlers of a registry have a property under the names by which they are called. -/
structure Has (holds : Callee → ValueHandler → Prop) (r : Registry) : Prop where
  bases : ∀ e ∈ r.bases, holds (.base e.2.name) fun _ ↦ e.2.handler
  attributes : ∀ e ∈ r.attributes, holds (.attr e.1.1 e.2.name) e.2.handler
  fallbacks : ∀ e ∈ r.fallbacks, holds (.fallback e.1) e.2
  universals : ∀ e ∈ r.universals, holds (.universal e.2.name) e.2.handler

/-- An entry of a table after a change is the new one or an old one. -/
theorem eq_or_mem_of_mem_put {κ α : Type} [BEq κ] {key : κ} {value : α} {table : List (κ × α)}
    {e : κ × α} (h : e ∈ put key value table) : e = (key, value) ∨ e ∈ table :=
  (List.mem_cons.1 h).imp id fun kept ↦ (List.mem_filter.1 kept).1

/-- What is looked up in a table is in it. -/
theorem mem_of_lookup {κ α : Type} [BEq κ] [LawfulBEq κ] {key : κ} {value : α}
    {table : List (κ × α)} (h : table.lookup key = some value) : (key, value) ∈ table := by
  induction table with
  | nil => contradiction
  | cons e rest ih =>
    obtain ⟨k, v⟩ := e
    rw [List.lookup_cons] at h
    split at h
    · next same =>
      rw [eq_of_beq same, Option.some.inj h]
      exact List.mem_cons_self
    · exact List.mem_cons_of_mem _ (ih h)

namespace Has

variable {holds : Callee → ValueHandler → Prop} {r : Registry}

private theorem remember (h : r.Has holds) (again : Bool) (what : String) :
    (r.remember again what).Has holds := by
  unfold Registry.remember
  split
  · exact ⟨h.bases, h.attributes, h.fallbacks, h.universals⟩
  · exact h

private theorem addAttribute (h : r.Has holds) {kind : Kind} (arity : Arity)
    {handler : ValueHandler} {name : String} (new : holds (.attr kind (Text.lower name)) handler) :
    (r.addAttribute kind arity handler name).Has holds := by
  refine { h.remember _ _ with attributes := fun e mem ↦ ?_ }
  rcases eq_or_mem_of_mem_put mem with rfl | old
  · exact new
  · exact h.attributes e old

private theorem register (h : r.Has holds) {registration : Registration}
    (new : registration.Has holds) :
    (r.register registration).Has holds := by
  cases registration with
  | base name returns handler =>
    refine { h.remember _ _ with bases := fun e mem ↦ ?_ }
    rcases eq_or_mem_of_mem_put mem with rfl | old
    · exact new
    · exact h.bases e old
  | attributes kind names arity handler =>
    change ∀ name ∈ names, holds (.attr kind (Text.lower name)) handler at new
    change (names.foldl (Registry.addAttribute kind arity handler) r).Has holds
    induction names generalizing r with
    | nil => exact h
    | cons name rest ih =>
      exact ih (h.addAttribute arity (new name List.mem_cons_self)) fun other mem ↦
        new other (List.mem_cons_of_mem _ mem)
  | fallback kind handler =>
    refine { h.remember _ _ with fallbacks := fun e mem ↦ ?_ }
    rcases eq_or_mem_of_mem_put mem with rfl | old
    · exact new
    · exact h.fallbacks e old
  | universal name arity handler =>
    refine { h.remember _ _ with universals := fun e mem ↦ ?_ }
    rcases eq_or_mem_of_mem_put mem with rfl | old
    · exact new
    · exact h.universals e old

private theorem foldl (h : r.Has holds) {history : List Registration}
    (all : ∀ registration ∈ history, registration.Has holds) :
    (history.foldl Registry.register r).Has holds := by
  induction history generalizing r with
  | nil => exact h
  | cons registration rest ih =>
    exact ih (h.register (all _ List.mem_cons_self)) fun other mem ↦
      all other (List.mem_cons_of_mem _ mem)

/-- What holds of all registrations holds of the handlers of the registry that they make. -/
theorem ofHistory {history : List Registration}
    (all : ∀ registration ∈ history, registration.Has holds) :
    (Registry.ofHistory history).Has holds :=
  foldl ⟨by simp, by simp, by simp, by simp⟩ all

/-- A base that is looked up is one that the registry has. -/
theorem base (h : r.Has holds) {key : String} {base : Base} (found : r.base? key = some base) :
    holds (.base base.name) fun _ ↦ base.handler :=
  h.bases _ (mem_of_lookup found)

/-- An attribute that is looked up is one that the registry has. -/
theorem attr (h : r.Has holds) {kind : Kind} {key : String} {attr : Attr}
    (found : r.attribute? kind key = some attr) : holds (.attr kind attr.name) attr.handler :=
  h.attributes _ (mem_of_lookup found)

/-- A fallback that is looked up is one that the registry has. -/
theorem fallback (h : r.Has holds) {kind : Kind} {handler : ValueHandler}
    (found : r.fallback? kind = some handler) : holds (.fallback kind) handler :=
  h.fallbacks _ (mem_of_lookup found)

/-- An attribute of all kinds that is looked up is one that the registry has. -/
theorem universal (h : r.Has holds) {key : String} {attr : Attr}
    (found : r.universal? key = some attr) : holds (.universal attr.name) attr.handler :=
  h.universals _ (mem_of_lookup found)

end Has

end Registry

end TextTags
