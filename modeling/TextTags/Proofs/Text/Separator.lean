import TextTags.Proofs.Text.Pieces

/-!
# Cutting at a separator

The stretches between the occurrences of a separator do not hold it, and joined by it they are the
text again. There is one more of them than occurrences, where these are found from left to right,
the search for each beginning where the one before ended.
-/

namespace TextTags.Text

/-- The places at which a separator is found from a place on. -/
inductive FoundFrom (sep cs : List Char) : Nat → List Nat → Prop
  | none {start} : (∀ i, start ≤ i → ¬ sep <+: cs.drop i) → FoundFrom sep cs start []
  /-- The first place, and those after the end of this occurrence. -/
  | next {start i places} : start ≤ i → sep <+: cs.drop i →
      (∀ j, start ≤ j → j < i → ¬ sep <+: cs.drop j) →
      FoundFrom sep cs (i + sep.length) places → FoundFrom sep cs start (i :: places)

variable {sep cs : List Char} {start : Nat} {places : List Nat}

/-- There is one way to find them. -/
theorem FoundFrom.unique {others : List Nat} (h : FoundFrom sep cs start places)
    (h' : FoundFrom sep cs start others) : places = others := by
  induction h generalizing others with
  | none absent =>
    cases h' with
    | none => rfl
    | next le here => exact absurd here (absent _ le)
  | @next start i places le here first _ ih =>
    cases h' with
    | none absent => exact absurd here (absent _ le)
    | @next _ i' _ le' here' first' rest' =>
      have same : i = i' := by
        rcases Nat.lt_trichotomy i i' with less | same | more
        · exact absurd here (first' i le less)
        · exact same
        · exact absurd here' (first i' le' more)
      subst same
      rw [ih rest']

/-- Where the separator does not stand, the search goes on. -/
theorem FoundFrom.skip (h : FoundFrom sep cs (start + 1) places) (not : ¬ sep <+: cs.drop start) :
    FoundFrom sep cs start places := by
  have earlier {j : Nat} (le : start ≤ j) : j = start ∨ start + 1 ≤ j := by omega
  cases h with
  | none absent =>
    refine .none fun j le ↦ ?_
    rcases earlier le with rfl | le
    · exact not
    · exact absent j le
  | next le here first rest =>
    refine .next (by omega) here (fun j le less ↦ ?_) rest
    rcases earlier le with rfl | le
    · exact not
    · exact first j le less

variable {first : Char} {more : List Char}

private theorem splitAtWord_ne_nil (first : Char) (more cs : List Char) :
    splitAtWord first more cs ≠ [] := by
  fun_induction splitAtWord first more cs <;> simp

/-- A separator stands at the start where its first character does and the others follow. -/
theorem separator_prefix_iff {c : Char} {rest : List Char} :
    c = first ∧ more.isPrefixOf rest ↔ first :: more <+: c :: rest := by
  rw [List.cons_prefix_cons, List.isPrefixOf_iff_prefix, eq_comm]

/-- Joined by the separator, the stretches are the text. -/
theorem joinWith_splitAtWord (first : Char) (more cs : List Char) :
    joinWith (first :: more) (splitAtWord first more cs) = cs := by
  fun_induction splitAtWord first more cs with
  | case1 => rfl
  | case2 c rest here ih =>
    obtain ⟨piece, pieces, eq⟩ := List.exists_cons_of_ne_nil
      (splitAtWord_ne_nil first more (rest.drop more.length))
    obtain ⟨rfl, after⟩ := here
    rw [eq] at ih ⊢
    change [] ++ (c :: more) ++ joinWith (c :: more) (piece :: pieces) = c :: rest
    rw [ih, List.nil_append, List.cons_append,
      List.prefix_iff_eq_append.1 (List.isPrefixOf_iff_prefix.1 after)]
  | case3 c rest not empty => exact absurd empty (splitAtWord_ne_nil first more rest)
  | case4 c rest not piece pieces eq ih =>
    rw [joinWith_cons_cons, ← eq, ih]

/-- The first stretch is the start of the text. -/
theorem prefix_of_splitAtWord {piece : List Char} {pieces : List (List Char)}
    (eq : splitAtWord first more cs = piece :: pieces) : piece <+: cs := by
  have joined := joinWith_splitAtWord first more cs
  rw [eq] at joined
  rw [← joined]
  cases pieces with
  | nil => exact List.prefix_rfl
  | cons => exact ⟨_, (List.append_assoc ..).symm⟩

/-- No stretch holds the separator. -/
theorem not_infix_of_mem_splitAtWord {piece : List Char} (mem : piece ∈ splitAtWord first more cs) :
    ¬ first :: more <:+: piece := by
  fun_induction splitAtWord first more cs generalizing piece with
  | case1 =>
    obtain rfl := List.mem_singleton.1 mem
    simp
  | case2 c rest here ih =>
    rcases List.mem_cons.1 mem with rfl | later
    · simp
    · exact ih later
  | case3 c rest not empty => exact absurd empty (splitAtWord_ne_nil first more rest)
  | case4 c rest not initial pieces eq ih =>
    rw [eq] at ih
    rcases List.mem_cons.1 mem with rfl | later
    · rw [List.infix_cons_iff, not_or]
      refine ⟨fun start ↦ not ?_, ih List.mem_cons_self⟩
      have whole : c :: initial <+: c :: rest :=
        List.cons_prefix_cons.2 ⟨rfl, prefix_of_splitAtWord eq⟩
      exact separator_prefix_iff.2 (start.trans whole)
    · exact ih (List.mem_cons_of_mem _ later)

/-- There is one stretch more than there are occurrences. -/
theorem exists_foundFrom (first : Char) (more cs : List Char) (start : Nat) :
    ∃ places, FoundFrom (first :: more) cs start places ∧
      (splitAtWord first more (cs.drop start)).length = places.length + 1 := by
  obtain ⟨tail, suffix⟩ : ∃ tail, tail = cs.drop start := ⟨_, rfl⟩
  rw [← suffix]
  fun_induction splitAtWord first more tail generalizing start with
  | case1 =>
    refine ⟨[], .none fun i le here ↦ ?_, rfl⟩
    obtain ⟨k, rfl⟩ := Nat.exists_eq_add_of_le le
    rw [← List.drop_drop, ← suffix, List.drop_nil, List.prefix_nil] at here
    contradiction
  | case2 c rest here ih =>
    have after : rest.drop more.length = cs.drop (start + (first :: more).length) := by
      rw [← List.drop_drop, ← suffix, List.length_cons, List.drop_succ_cons]
    obtain ⟨places, found, length⟩ := ih _ after
    refine ⟨start :: places, .next (Nat.le_refl _) ?_ (fun j le less ↦ ?_) found, ?_⟩
    · rw [← suffix]
      exact separator_prefix_iff.1 here
    · omega
    · rw [List.length_cons, length, List.length_cons]
  | case3 c rest not empty => exact absurd empty (splitAtWord_ne_nil first more rest)
  | case4 c rest not piece pieces eq ih =>
    have after : rest = cs.drop (start + 1) := by
      rw [← List.drop_drop, ← suffix, List.drop_succ_cons, List.drop_zero]
    obtain ⟨places, found, length⟩ := ih _ after
    refine ⟨places, found.skip ?_, ?_⟩
    · rw [← suffix, ← separator_prefix_iff]
      exact not
    · rw [eq] at length
      exact length

end TextTags.Text
