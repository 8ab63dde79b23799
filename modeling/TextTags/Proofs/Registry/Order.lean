import TextTags.Proofs.Registry.Lookup

/-!
# The order of registrations

Where no place of the registry is set twice, the order of the registrations leaves no trace: the
same is found in all places, and the names that come near a key are those that are registered for
it, in ascending order.
-/

namespace TextTags.Registry

variable {r r' : Registry} {kind : Kind} {key name : String} {hasParam : Bool}

/-- Whether each attribute stands once in its table, under its own name. -/
structure Keyed (r : Registry) : Prop where
  once : (r.attributes.map Prod.fst).Nodup
  named : ∀ e ∈ r.attributes, e.2.name = e.1.2

private theorem Keyed.of_attributes_eq (h : r.Keyed) (same : r'.attributes = r.attributes) :
    r'.Keyed := by
  constructor
  · rw [same]
    exact h.once
  · rw [same]
    exact h.named

private theorem Keyed.addAttribute (h : r.Keyed) (kind : Kind) (arity : Arity)
    (handler : ValueHandler) (name : String) : (addAttribute kind arity handler r name).Keyed := by
  constructor
  · exact nodup_keys_put h.once
  · intro e mem
    rcases eq_or_mem_of_mem_put mem with rfl | old
    · rfl
    · exact h.named e old

private theorem Keyed.register (h : r.Keyed) (g : Registration) : (r.register g).Keyed := by
  cases g with
  | attributes kind names arity handler =>
    change (names.foldl (Registry.addAttribute kind arity handler) r).Keyed
    induction names generalizing r with
    | nil => exact h
    | cons name rest ih => exact ih (h.addAttribute kind arity handler name)
  | base | fallback | universal => exact h.of_attributes_eq (attributes_remember ..)

/-- The tables of a registry have each key once. -/
theorem keyed_ofHistory (history : List Registration) : (ofHistory history).Keyed := by
  have all (r : Registry) (h : r.Keyed) : (history.foldl Registry.register r).Keyed := by
    induction history generalizing r with
    | nil => exact h
    | cons g rest ih => exact ih _ (h.register g)
  exact all {} ⟨.nil, by simp⟩

private theorem mem_near (keyed : r.Keyed) : name ∈ r.near kind key hasParam ↔
    ∃ attr, r.attribute? kind name = some attr ∧ attr.arity.accepts hasParam ∧
      Near.looksLike name key := by
  rw [near, List.mem_mergeSort, List.mem_map]
  constructor
  · rintro ⟨⟨⟨kind', name'⟩, attr⟩, kept, rfl⟩
    obtain ⟨mem, similar⟩ := List.mem_filter.1 kept
    have named : attr.name = name' := keyed.named _ mem
    simp only [Bool.and_eq_true, decide_eq_true_eq] at similar
    obtain ⟨⟨rfl, accepts⟩, looks⟩ := similar
    refine ⟨attr, (lookup_eq_some_iff_mem keyed.once).2 ?_, accepts, looks⟩
    rw [named]
    exact mem
  · rintro ⟨attr, found, accepts, looks⟩
    have mem := mem_of_lookup found
    have named : attr.name = name := keyed.named _ mem
    refine ⟨((kind, name), attr), List.mem_filter.2 ⟨mem, ?_⟩, named⟩
    simp [accepts, looks, named]

/-- The names that come near are in ascending order, and no name is among them twice. -/
theorem near_ascending (keyed : r.Keyed) : (r.near kind key hasParam).Pairwise (· < ·) := by
  have apart : (r.near kind key hasParam).Nodup := by
    rw [near, (List.mergeSort_perm _ _).nodup_iff]
    refine (keyed.once.of_map.filter _).map_on fun e mem e' mem' same ↦ ?_
    obtain ⟨mem, similar⟩ := List.mem_filter.1 mem
    obtain ⟨mem', similar'⟩ := List.mem_filter.1 mem'
    simp only [Bool.and_eq_true, decide_eq_true_eq] at similar similar'
    rw [keyed.named e mem, keyed.named e' mem'] at same
    exact List.inj_on_of_nodup_map keyed.once mem mem'
      (Prod.ext (similar.1.1.trans similar'.1.1.symm) same)
  have sorted : (r.near kind key hasParam).Pairwise (· ≤ ·) := by
    let le (a b : String) : Bool := !decide (b < a)
    have ordered (a b : String) : le a b ↔ a ≤ b := by
      rw [Bool.not_eq_true', decide_eq_false_iff_not, String.not_lt]
    have transitive (a b c : String) (ab : le a b) (bc : le b c) : le a c :=
      (ordered a c).2 (String.le_trans ((ordered a b).1 ab) ((ordered b c).1 bc))
    have total (a b : String) : le a b || le b a := by
      rw [Bool.or_eq_true, ordered, ordered]
      exact String.le_total a b
    exact (List.pairwise_mergeSort transitive total _).imp (ordered _ _).1
  refine (sorted.and apart).imp fun {a b} h ↦ ?_
  by_contra above
  exact h.2 (String.le_antisymm h.1 (String.not_lt.1 above))

/-- A list in ascending order is told by its members. -/
theorem eq_of_ascending {names names' : List String} (h : names.Pairwise (· < ·))
    (h' : names'.Pairwise (· < ·)) (same : ∀ name, name ∈ names ↔ name ∈ names') :
    names = names' := by
  have apart {names : List String} (h : names.Pairwise (· < ·)) : names.Nodup := by
    refine h.imp fun {a b} lt eq ↦ ?_
    rw [eq] at lt
    exact String.lt_irrefl b lt
  refine List.Perm.eq_of_pairwise (fun a b _ _ ab ba ↦ ?_) h h'
    ((List.perm_ext_iff_of_nodup (apart h) (apart h')).2 same)
  exact absurd (String.lt_trans ab ba) (String.lt_irrefl a)

open Registration

variable {history history' : List Registration}

/-- Where no place is set twice, the names that come near are those that are registered for the kind
with an arity that accepts the segment and that look like the key. -/
theorem mem_near_ofHistory (once : NoneTwice history) :
    name ∈ (ofHistory history).near kind key hasParam ↔ ∃ names arity handler,
      .attributes kind names arity handler ∈ history ∧ name ∈ names.map Text.lower ∧
        arity.accepts hasParam ∧ Near.looksLike name key := by
  rw [mem_near (keyed_ofHistory history)]
  constructor
  · rintro ⟨attr, found, accepts, looks⟩
    obtain ⟨g, mem, given⟩ := (attribute?_ofHistory once).1 found
    cases g with
    | attributes kind' names arity handler =>
      obtain ⟨⟨rfl, named⟩, same⟩ := Option.ite_none_right_eq_some.1 given
      obtain rfl := Option.some.inj same
      exact ⟨names, arity, handler, mem, named, accepts, looks⟩
    | _ => contradiction
  · rintro ⟨names, arity, handler, mem, named, accepts, looks⟩
    refine ⟨⟨name, arity, handler⟩, (attribute?_ofHistory once).2 ⟨_, mem, ?_⟩, accepts, looks⟩
    exact if_pos ⟨rfl, named⟩

/-- In whatever order a set of registrations is performed that sets no place twice, the same is
found. -/
theorem agree_of_perm (once : NoneTwice history) (perm : history.Perm history') :
    (ofHistory history).Agree (ofHistory history') := by
  have once' : NoneTwice history' := (perm.flatMap_right places).nodup_iff.1 once
  have attributes (kind : Kind) (key : String) :
      (ofHistory history').attribute? kind key = (ofHistory history).attribute? kind key := by
    ext attr
    simp only [attribute?_ofHistory once, attribute?_ofHistory once', perm.mem_iff]
  refine ⟨fun key ↦ ?_, attributes, fun kind ↦ ?_, fun key ↦ ?_, fun kind key hasParam ↦ ?_⟩
  · ext base
    simp only [base?_ofHistory once, base?_ofHistory once', perm.mem_iff]
  · ext handler
    simp only [fallback?_ofHistory once, fallback?_ofHistory once', perm.mem_iff]
  · ext attr
    simp only [universal?_ofHistory once, universal?_ofHistory once', perm.mem_iff]
  · have keyed := keyed_ofHistory history
    have keyed' := keyed_ofHistory history'
    refine eq_of_ascending (near_ascending keyed') (near_ascending keyed) fun name ↦ ?_
    simp only [mem_near keyed, mem_near keyed', attributes]

end TextTags.Registry
