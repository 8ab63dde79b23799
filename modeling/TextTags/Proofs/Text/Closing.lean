import TextTags.Proofs.Text.Nesting

/-!
# Searches for a closing bracket

Tags and parameters end at the bracket that closes the one they begin with. The search for it keeps
a count of the brackets open. Here taking one from a count of none is an end of its own, and a
search that starts inside a bracket never comes to it.
-/

namespace TextTags.Text

/-- The end of a search for a closing bracket. -/
inductive Closing
  /-- A bracket is closed with none open. -/
  | stray
  /-- The text ends with brackets open. -/
  | unclosed
  | closed (inside after : List Char)
deriving DecidableEq

namespace Closing

/-- The end of a search that has passed more text before. -/
def passing (passed : List Char) : Closing → Closing
  | closed inside after => closed (passed ++ inside) after
  | stray => stray
  | unclosed => unclosed

/-- What stands before and after the bracket that was found. -/
def found? : Closing → Option (List Char × List Char)
  | closed inside after => some (inside, after)
  | stray => none
  | unclosed => none

private theorem passing_nil (s : Closing) : s.passing [] = s := by
  cases s <;> rfl

private theorem passing_passing (first second : List Char) (s : Closing) :
    (s.passing second).passing first = s.passing (first ++ second) := by
  cases s with
  | stray | unclosed => rfl
  | closed => simp only [passing, List.append_assoc]

/-- What a search has passed stands before what it finds. -/
theorem found?_passing (passed : List Char) (s : Closing) :
    (s.passing passed).found? =
      s.found?.map fun (inside, after) ↦ (passed ++ inside, after) := by
  cases s <;> rfl

end Closing

variable {opening closing : Char}

/-- The search for the bracket at which the number of open ones falls to none. -/
def search (opening closing : Char) (depth : Nat) : List Char → Closing
  | [] => .unclosed
  | c :: rest =>
    if c = opening then (search opening closing (depth + 1) rest).passing [c]
    else if c = closing then
      if depth = 0 then .stray
      else if depth = 1 then .closed [] rest
      else (search opening closing (depth - 1) rest).passing [c]
    else (search opening closing depth rest).passing [c]

/-- A text that leaves the bracket the search is in open is passed. -/
theorem search_append {depth after : Nat} {cs : List Char}
    (h : depthAfter opening closing depth cs = some after) (rest : List Char) :
    search opening closing (depth + 1) (cs ++ rest) =
      (search opening closing (after + 1) rest).passing cs := by
  induction cs generalizing depth with
  | nil =>
    obtain rfl := Option.some.inj h
    exact (Closing.passing_nil _).symm
  | cons c cs ih =>
    unfold depthAfter at h
    rw [List.cons_append, search]
    by_cases opens : c = opening
    · rw [if_pos opens] at h ⊢
      rw [ih h, Closing.passing_passing, List.singleton_append]
    · rw [if_neg opens] at h ⊢
      by_cases closes : c = closing
      · rw [if_pos closes] at h ⊢
        by_cases hno : depth = 0
        · rw [if_pos hno] at h
          contradiction
        · rw [if_neg hno] at h
          obtain ⟨d, rfl⟩ := Nat.exists_eq_succ_of_ne_zero hno
          rw [if_neg (by omega), if_neg (by omega)]
          have next := ih h
          simp only [Nat.succ_eq_add_one, Nat.add_sub_cancel] at next ⊢
          rw [next, Closing.passing_passing, List.singleton_append]
      · rw [if_neg closes] at h ⊢
        rw [ih h, Closing.passing_passing, List.singleton_append]

/-- Where no bracket is closed that is not open the search finds nothing. -/
theorem search_of_depthAfter {depth after : Nat} {cs : List Char}
    (h : depthAfter opening closing depth cs = some after) :
    search opening closing (depth + 1) cs = .unclosed := by
  have whole := search_append h []
  rwa [List.append_nil] at whole

/-- The search ends at the first bracket that closes more than is open within. -/
theorem search_of_closing (apart : opening ≠ closing) {depth : Nat} {inside : List Char}
    (h : depthAfter opening closing depth inside = some 0) (after : List Char) :
    search opening closing (depth + 1) (inside ++ closing :: after) = .closed inside after := by
  rw [search_append h, search, if_neg (Ne.symm apart), if_pos rfl, if_neg (by omega), if_pos rfl,
    Closing.passing, List.append_nil]

/-- Either no bracket is closed that is not open, or there is a first one. -/
theorem depthAfter_cases (opening closing : Char) (depth : Nat) (cs : List Char) :
    (∃ after, depthAfter opening closing depth cs = some after) ∨
      ∃ inside after, cs = inside ++ closing :: after ∧
        depthAfter opening closing depth inside = some 0 := by
  induction cs generalizing depth with
  | nil => exact .inl ⟨depth, rfl⟩
  | cons c rest ih =>
    -- What follows the first character, put behind it again.
    have lift (next : Nat) (eq : ∀ cs, depthAfter opening closing depth (c :: cs) =
        depthAfter opening closing next cs) :
        (∃ after, depthAfter opening closing depth (c :: rest) = some after) ∨
          ∃ inside after, c :: rest = inside ++ closing :: after ∧
            depthAfter opening closing depth inside = some 0 := by
      rcases ih next with ⟨after, kept⟩ | ⟨inside, after, rfl, closed⟩
      · exact .inl ⟨after, (eq rest).trans kept⟩
      · exact .inr ⟨c :: inside, after, rfl, (eq inside).trans closed⟩
    by_cases opens : c = opening
    · exact lift (depth + 1) fun cs ↦ by rw [depthAfter, if_pos opens]
    · by_cases closes : c = closing
      · by_cases hno : depth = 0
        · subst closes hno
          exact .inr ⟨[], rest, rfl, rfl⟩
        · exact lift (depth - 1) fun cs ↦ by
            rw [depthAfter, if_neg opens, if_pos closes, if_neg hno]
      · exact lift depth fun cs ↦ by rw [depthAfter, if_neg opens, if_neg closes]

/-- Within a bracket the count of open ones never falls below none. -/
theorem search_ne_stray (apart : opening ≠ closing) (depth : Nat) (cs : List Char) :
    search opening closing (depth + 1) cs ≠ .stray := by
  rcases depthAfter_cases opening closing depth cs with
    ⟨after, kept⟩ | ⟨inside, after, rfl, closed⟩
  · rw [search_of_depthAfter kept]
    exact nofun
  · rw [search_of_closing apart closed]
    exact nofun

/-- A search ends where the closing bracket brings the depth to zero. -/
theorem search_eq_closed_iff (apart : opening ≠ closing) {depth : Nat}
    {cs inside after : List Char} :
    search opening closing (depth + 1) cs = .closed inside after ↔
      cs = inside ++ closing :: after ∧ depthAfter opening closing depth inside = some 0 := by
  constructor
  · intro found
    rcases depthAfter_cases opening closing depth cs with
      ⟨left, kept⟩ | ⟨first, rest, rfl, closed⟩
    · rw [search_of_depthAfter kept] at found
      contradiction
    · rw [search_of_closing apart closed] at found
      obtain ⟨rfl, rfl⟩ := Closing.closed.inj found
      exact ⟨rfl, closed⟩
  · rintro ⟨rfl, closed⟩
    exact search_of_closing apart closed after

/-- A search runs to the end where the depth never comes to zero. -/
theorem search_eq_unclosed_iff (apart : opening ≠ closing) {depth : Nat} {cs : List Char} :
    search opening closing (depth + 1) cs = .unclosed ↔
      ∃ after, depthAfter opening closing depth cs = some after := by
  constructor
  · intro hno
    rcases depthAfter_cases opening closing depth cs with
      kept | ⟨inside, rest, rfl, closed⟩
    · exact kept
    · rw [search_of_closing apart closed] at hno
      contradiction
  · rintro ⟨after, kept⟩
    exact search_of_depthAfter kept

/-- A reader that ends at a bracket with at most one open, and goes on with the brackets counted,
makes the search where it starts inside a bracket. -/
theorem eq_found?_search {reader : Nat → List Char → Option (List Char × List Char)}
    (apart : opening ≠ closing) (nil : ∀ depth, reader depth [] = none)
    (cons : ∀ depth c rest, reader depth (c :: rest) =
      if c = closing ∧ depth ≤ 1 then some ([], rest)
      else (reader (if c = opening then depth + 1 else if c = closing then depth - 1 else depth)
        rest).map fun (inside, after) ↦ (c :: inside, after))
    (depth : Nat) (cs : List Char) :
    reader (depth + 1) cs = (search opening closing (depth + 1) cs).found? := by
  -- The reader stops at a depth of one at most, the search at one: they agree as the reader is
  -- never at none.
  induction cs generalizing depth with
  | nil => exact nil _
  | cons c rest ih =>
    rw [cons, search]
    by_cases opens : c = opening
    · rw [if_neg fun ends ↦ apart (opens.symm.trans ends.1), if_pos opens, if_pos opens, ih,
        Closing.found?_passing]
      rfl
    · by_cases closes : c = closing
      · by_cases last : depth = 0
        · subst last
          rw [if_pos ⟨closes, Nat.le_refl _⟩, if_neg opens, if_pos closes, if_neg (by omega),
            if_pos rfl]
          rfl
        · obtain ⟨d, rfl⟩ := Nat.exists_eq_succ_of_ne_zero last
          rw [if_neg fun ends ↦ absurd ends.2 (by omega), if_neg opens, if_pos closes, if_neg opens,
            if_pos closes, if_neg (by omega), if_neg (by omega), Nat.add_sub_cancel, ih,
            Closing.found?_passing]
          rfl
      · rw [if_neg fun ends ↦ closes ends.1, if_neg opens, if_neg closes, if_neg opens,
          if_neg closes, ih, Closing.found?_passing]
        rfl

end TextTags.Text
