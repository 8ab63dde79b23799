import TextTags.Text.Pieces

/-!
# Cutting joined texts

Cutting at a mark undoes joining with it where no piece holds the mark.
-/

namespace TextTags.Text

/-- A text without the mark is not cut. -/
theorem splitOnce_eq_none {mark : Char} {cs : List Char} (h : mark ∉ cs) :
    splitOnce mark cs = none := by
  induction cs with
  | nil => rfl
  | cons c rest ih =>
    rw [List.mem_cons, not_or] at h
    rw [splitOnce, if_neg (Ne.symm h.1), ih h.2, Option.map_none]

/-- A text is cut at its first mark. -/
theorem splitOnce_append {mark : Char} {before : List Char} (h : mark ∉ before)
    (after : List Char) : splitOnce mark (before ++ mark :: after) = some (before, after) := by
  induction before with
  | nil => simp [splitOnce]
  | cons c rest ih =>
    rw [List.mem_cons, not_or] at h
    rw [List.cons_append, splitOnce, if_neg (Ne.symm h.1), ih h.2, Option.map_some]

/-- A character parts a text where it first occurs. -/
theorem splitOnce_eq_some_iff {mark : Char} {cs before after : List Char} :
    splitOnce mark cs = some (before, after) ↔ cs = before ++ mark :: after ∧ mark ∉ before := by
  refine ⟨fun h ↦ ⟨eq_append_of_splitOnce h, ?_⟩, fun ⟨eq, h⟩ ↦ eq ▸ splitOnce_append h after⟩
  induction cs generalizing before with
  | nil => contradiction
  | cons c rest ih =>
    unfold splitOnce at h
    split at h
    · obtain ⟨rfl, -⟩ := Prod.mk.inj (Option.some.inj h)
      exact List.not_mem_nil
    · next other =>
      obtain ⟨⟨before', after'⟩, cut, eq⟩ := Option.map_eq_some_iff.1 h
      obtain ⟨rfl, rfl⟩ := Prod.mk.inj eq
      rw [List.mem_cons, not_or]
      exact ⟨Ne.symm other, ih cut⟩

private theorem splitWhere_eq_singleton {p : Char → Bool} {cs : List Char}
    (h : ∀ c ∈ cs, p c = false) :
    splitWhere p cs = [cs] := by
  induction cs with
  | nil => rfl
  | cons c rest ih =>
    rw [splitWhere, h c List.mem_cons_self, ih fun c mem ↦ h c (List.mem_cons_of_mem _ mem)]
    simp

private theorem splitWhere_ne_nil (p : Char → Bool) (cs : List Char) : splitWhere p cs ≠ [] := by
  fun_induction splitWhere p cs <;> simp

/-- A mark parts the stretches of a text. -/
theorem splitWhere_append {p : Char → Bool} {mark : Char} (h : p mark = true)
    (cs rest : List Char) :
    splitWhere p (cs ++ mark :: rest) = splitWhere p cs ++ splitWhere p rest := by
  induction cs with
  | nil => simp [splitWhere, h]
  | cons c cs ih =>
    rw [List.cons_append, splitWhere, splitWhere, ih]
    obtain ⟨piece, pieces, eq⟩ := List.exists_cons_of_ne_nil (splitWhere_ne_nil p cs)
    rw [eq]
    split <;> rfl

/-- A mark at the end makes an empty last piece. -/
theorem splitWhere_append_mark {p : Char → Bool} {mark : Char} (h : p mark = true)
    (cs : List Char) : splitWhere p (cs ++ [mark]) = splitWhere p cs ++ [[]] :=
  splitWhere_append h cs []

/-- The first mark ends the first piece. -/
theorem splitWhere_append_cons {p : Char → Bool} {mark : Char} {piece : List Char}
    (h : ∀ c ∈ piece, p c = false) (hmark : p mark = true) (rest : List Char) :
    splitWhere p (piece ++ mark :: rest) = piece :: splitWhere p rest := by
  rw [splitWhere_append hmark, splitWhere_eq_singleton h, List.singleton_append]

/-- There is one more piece than marks. -/
theorem length_splitWhere (p : Char → Bool) (cs : List Char) :
    (splitWhere p cs).length = cs.countP p + 1 := by
  fun_induction splitWhere p cs with
  | case1 => rfl
  | case2 c rest mark ih => simp [mark, ih]
  | case3 c rest plain empty => exact absurd empty (splitWhere_ne_nil p rest)
  | case4 c rest plain piece pieces eq ih =>
    rw [eq, List.length_cons] at ih
    simp [plain, ih]

/-- Joining is intercalation. -/
theorem joinWith_eq_intercalate (sep : List Char) (pieces : List (List Char)) :
    joinWith sep pieces = sep.intercalate pieces := by
  fun_induction joinWith with
  | case1 => rfl
  | case2 piece => exact List.intercalate_singleton.symm
  | case3 piece pieces more ih =>
    rw [ih, List.intercalate_cons_of_ne_nil (by simpa using more)]

/-- A character at the start of the first piece comes first. -/
theorem joinWith_cons_cons (sep : List Char) (c : Char) (piece : List Char)
    (pieces : List (List Char)) :
    joinWith sep ((c :: piece) :: pieces) = c :: joinWith sep (piece :: pieces) := by
  cases pieces <;> rfl

private theorem joinWith_append (sep : List Char) {pieces more : List (List Char)}
    (hne : pieces ≠ []) (hne' : more ≠ []) :
    joinWith sep (pieces ++ more) = joinWith sep pieces ++ sep ++ joinWith sep more := by
  induction pieces with
  | nil => contradiction
  | cons piece pieces ih =>
    obtain ⟨next, more, rfl⟩ := List.exists_cons_of_ne_nil hne'
    cases pieces with
    | nil => rfl
    | cons second pieces =>
      have rest := ih (List.cons_ne_nil _ _)
      simp only [List.cons_append, joinWith, List.append_assoc] at rest ⊢
      rw [rest]

/-- Pieces joined up to a place and from it on are joined, if the separator is put between them
where both sides have one. -/
theorem joinWith_take_drop (sep : List Char) (pieces : List (List Char)) {i : Nat}
    (bound : i ≤ pieces.length) :
    joinWith sep (pieces.take i) ++ (if 0 < i ∧ i < pieces.length then sep else []) ++
      joinWith sep (pieces.drop i) = joinWith sep pieces := by
  by_cases inner : 0 < i ∧ i < pieces.length
  · have before : pieces.take i ≠ [] := by
      rw [← List.length_pos_iff, List.length_take]
      omega
    have after : pieces.drop i ≠ [] := by
      rw [← List.length_pos_iff, List.length_drop]
      omega
    rw [if_pos inner, ← joinWith_append sep before after, List.take_append_drop]
  · rw [if_neg inner, List.append_nil]
    rcases Nat.eq_zero_or_pos i with rfl | hne
    · rfl
    · obtain rfl : i = pieces.length := by omega
      rw [List.take_length, List.drop_length]
      exact List.append_nil _

/-- Pieces that are joined at a mark are cut apart again. -/
theorem splitWhere_joinWith {mark : Char} {pieces : List (List Char)} (hne : pieces ≠ [])
    (h : ∀ piece ∈ pieces, mark ∉ piece) :
    splitWhere (· == mark) (joinWith [mark] pieces) = pieces := by
  have plain {piece : List Char} (mem : piece ∈ pieces) : ∀ c ∈ piece, (c == mark) = false := by
    intro c hc
    simpa using fun eq : c = mark ↦ h piece mem (eq ▸ hc)
  fun_induction joinWith [mark] pieces with
  | case1 => contradiction
  | case2 piece => exact splitWhere_eq_singleton (plain List.mem_cons_self)
  | case3 piece pieces more ih =>
    have others : pieces ≠ [] := by
      rintro rfl
      exact more rfl
    rw [List.append_assoc, List.singleton_append,
      splitWhere_append_cons (plain List.mem_cons_self) (by simp),
      ih others (fun p mem ↦ h p (List.mem_cons_of_mem _ mem))
        (fun mem ↦ plain (List.mem_cons_of_mem _ mem))]

end TextTags.Text
