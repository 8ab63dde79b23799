import TextTags.Proofs.Registry.History

/-!
# Registries of distinct registrations

Where no place is set twice, no registration takes anything out of a table or has a duplicate to
remember, so that each table is a list of what was registered, the latest first.
-/

namespace TextTags.Registry

open Registration

/-- A registry with what a registration puts in its tables in front. -/
def adding (r : Registry) : Registration → Registry
  | .base name returns handler =>
    let key := Text.lower name
    { r with bases := (key, ⟨key, returns, handler⟩) :: r.bases }
  | .attributes kind names arity handler =>
    let entries : List ((Kind × String) × Attr) := names.map fun name ↦
      ((kind, Text.lower name), ⟨Text.lower name, arity, handler⟩)
    { r with attributes := entries.reverse ++ r.attributes }
  | .fallback kind handler => { r with fallbacks := (kind, handler) :: r.fallbacks }
  | .universal name arity handler =>
    let key := Text.lower name
    { r with universals := (key, ⟨key, arity, handler⟩) :: r.universals }

/-- The tables of a history. -/
def tables (history : List Registration) : Registry := history.foldl adding {}

section

variable {κ α : Type} [BEq κ] [LawfulBEq κ]

/-- A key that is not in a table is put in front of it. -/
theorem put_of_free {key : κ} {table : List (κ × α)} (free : (table.lookup key).isSome = false)
    (value : α) : put key value table = (key, value) :: table := by
  have hno : table.lookup key = none := by simpa using free
  have absent := List.lookup_eq_none_iff.1 hno
  refine congrArg (List.cons _) (List.filter_eq_self.2 fun e mem ↦ ?_)
  have other := absent e mem
  rwa [bne_comm] at other

end

variable {r : Registry} {g : Registration} {history : List Registration}

/-- Whether nothing is found in any of some places. -/
def Free (r : Registry) (places : List Callee) : Prop := ∀ place ∈ places, r.occupied place = false

/-- A registration leaves free what it does not set. -/
theorem Free.register {places : List Callee} (free : r.Free (g.places ++ places))
    (once : (g.places ++ places).Nodup) : (r.register g).Free places := by
  intro place mem
  have other : place ∉ g.places := fun set ↦
    (List.nodup_append.1 once).2.2 place set place mem rfl
  rw [occupied_register, decide_eq_false other, Bool.false_or]
  exact free place (List.mem_append_right _ mem)

private theorem register_eq_adding (free : r.Free g.places) (once : g.places.Nodup) :
    r.register g = r.adding g := by
  cases g with
  | base name returns handler =>
    have hno : (r.bases.lookup (Text.lower name)).isSome = false := free _ List.mem_cons_self
    simp [register, addBase, remember, hno, put_of_free hno, adding]
  | fallback kind handler =>
    have hno : (r.fallbacks.lookup kind).isSome = false := free _ List.mem_cons_self
    simp [register, addFallback, remember, hno, put_of_free hno, adding]
  | universal name arity handler =>
    have hno : (r.universals.lookup (Text.lower name)).isSome = false :=
      free _ List.mem_cons_self
    simp [register, addUniversal, remember, hno, put_of_free hno, adding]
  | attributes kind names arity handler =>
    -- A call with several names does what calls with one name each do in turn.
    induction names generalizing r with
    | nil => rfl
    | cons name rest ih =>
      have hno : (r.attributes.lookup (kind, Text.lower name)).isSome = false :=
        free _ List.mem_cons_self
      have later : (r.register (.attributes kind [name] arity handler)).Free
          (places (.attributes kind rest arity handler)) := Free.register free once
      have first : addAttribute kind arity handler r name =
          r.adding (.attributes kind [name] arity handler) := by
        simp [addAttribute, remember, hno, put_of_free hno, adding]
      refine (ih later (List.nodup_cons.1 once).2).trans ?_
      change (addAttribute kind arity handler r name).adding _ = _
      rw [first]
      simp [adding]

private theorem foldl_register_eq (free : r.Free (history.flatMap places))
    (once : NoneTwice history) :
    history.foldl register r = history.foldl adding r := by
  induction history generalizing r with
  | nil => rfl
  | cons g rest ih =>
    have once' : (g.places ++ rest.flatMap places).Nodup := once
    have first : r.register g = r.adding g := register_eq_adding
      (fun place mem ↦ free place (List.mem_append_left _ mem)) (List.nodup_append.1 once').1
    rw [List.foldl_cons, List.foldl_cons, ← first]
    exact ih (Free.register free once') (List.nodup_append.1 once').2.1

/-- A history that sets no place twice leaves its tables. -/
theorem ofHistory_eq_tables (once : NoneTwice history) : ofHistory history = tables history := by
  refine foldl_register_eq (fun place _ ↦ ?_) once
  cases place <;> rfl

/-- As tables the core is evaluated without comparing each registration with all before it. -/
theorem core_eq_tables : core = tables Core.history := ofHistory_eq_tables noneTwice_core

end TextTags.Registry
