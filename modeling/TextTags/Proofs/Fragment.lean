import TextTags.Fragment
import TextTags.Proofs.Text.Closing

/-!
# Fragments of texts put together

Once the tags of a text have been cut out and nothing in it can open another one, the text that
follows is cut as it would be on its own.
-/

namespace TextTags

open Text

namespace Tag

/-- What is left of a text when its tags are cut out. -/
def outside (cs : List Char) : List Char :=
  match _ : find? cs with
  | none => cs
  | some (before, _, after) => before ++ outside after
termination_by cs.length
decreasing_by
  have := eq_append_of_find ‹find? cs = some (before, _, after)›
  simp [this]
  omega

/-- Whether every opening bracket is directly followed by a dash. -/
def dashed : List Char → Bool
  | [] => true
  | c :: rest => (c != '<' || rest.head? == some '-') && dashed rest

/-- A text whose brackets outside its tags open nothing, whatever follows. -/
def Closed (cs : List Char) : Prop := dashed (outside cs)

/-- Where no tag is found all of the text is outside. -/
theorem outside_of_none {cs : List Char} (h : find? cs = none) : outside cs = cs := by
  rw [outside]
  split
  · rfl
  · next found =>
    rw [h] at found
    contradiction

/-- What stands before a tag is outside, and what is outside after it. -/
theorem outside_of_some {cs before inside after : List Char}
    (h : find? cs = some (before, inside, after)) : outside cs = before ++ outside after := by
  rw [outside]
  split
  · next absent =>
    rw [h] at absent
    contradiction
  · next found =>
    rw [h] at found
    simp only [Option.some.injEq, Prod.mk.injEq] at found
    obtain ⟨rfl, rfl, rfl⟩ := found
    rfl

/-- What ends a dashed text is dashed. -/
theorem dashed_of_append {cs rest : List Char} (h : dashed (cs ++ rest)) : dashed rest := by
  induction cs with
  | nil => exact h
  | cons c cs ih =>
    rw [List.cons_append, dashed, Bool.and_eq_true] at h
    exact ih h.2

/-- What follows a closed text's first tag is closed. -/
theorem Closed.after {cs before inside after : List Char} (h : Closed cs)
    (found : find? cs = some (before, inside, after)) : Closed after := by
  rw [Closed, outside_of_some found] at h
  exact dashed_of_append h

/-- A tag is closed where the search for its closing bracket ends. -/
theorem close?_eq_search (depth : Nat) (cs : List Char) :
    close? (depth + 1) cs = (search '<' '>' (depth + 1) cs).found? :=
  eq_found?_search (by decide) (fun _ ↦ rfl) (fun _ _ _ ↦ rfl) depth cs

private theorem close?_append_of_some {depth : Nat} {cs inside after : List Char}
    (h : close? depth cs = some (inside, after)) (rest : List Char) :
    close? depth (cs ++ rest) = some (inside, after ++ rest) := by
  induction cs generalizing depth inside with
  | nil => simp [close?] at h
  | cons c cs ih =>
    unfold close? at h
    rw [List.cons_append, close?]
    split
    · next ends =>
      rw [if_pos ends] at h
      simp only [Option.some.injEq, Prod.mk.injEq] at h
      obtain ⟨rfl, rfl⟩ := h
      rfl
    · next goes =>
      rw [if_neg goes] at h
      simp only [Option.map_eq_some_iff, Prod.mk.injEq] at h
      obtain ⟨⟨i, a⟩, closes, rfl, rfl⟩ := h
      simp only [ih closes, Option.map_some]

/-- A text's first tag stays its first tag when more text follows. -/
theorem find?_append_of_some {cs before inside after : List Char}
    (h : find? cs = some (before, inside, after)) (rest : List Char) :
    find? (cs ++ rest) = some (before, inside, after ++ rest) := by
  induction cs generalizing before with
  | nil => simp [find?] at h
  | cons c cs ih =>
    unfold find? at h
    rw [List.cons_append, find?]
    split at h
    · next opens =>
      simp only [Option.map_eq_some_iff, Prod.mk.injEq] at h
      obtain ⟨⟨i, a⟩, closes, rfl, rfl, rfl⟩ := h
      have head : (cs ++ rest).head? = cs.head? := by
        cases cs with
        | nil => simp [close?] at closes
        | cons => rfl
      rw [head, if_pos opens, close?_append_of_some closes]
      rfl
    · next plain =>
      simp only [Option.map_eq_some_iff, Prod.mk.injEq] at h
      obtain ⟨⟨b, i, a⟩, found, rfl, rfl, rfl⟩ := h
      have stays : ¬ (c = '<' ∧ (cs ++ rest).head? ≠ some '-') := by
        rintro ⟨opens, other⟩
        refine plain ⟨opens, fun dash ↦ other ?_⟩
        cases cs with
        | nil => simp at dash
        | cons => exact dash
      rw [if_neg stays, ih found]
      rfl

/-- A text whose brackets open nothing is passed over. -/
theorem find?_append_of_dashed {cs : List Char} (h : dashed cs) (rest : List Char) :
    find? (cs ++ rest) =
      (find? rest).map fun (before, inside, after) ↦ (cs ++ before, inside, after) := by
  induction cs with
  | nil => simp
  | cons c cs ih =>
    rw [dashed, Bool.and_eq_true] at h
    have stays : ¬ (c = '<' ∧ (cs ++ rest).head? ≠ some '-') := by
      rintro ⟨rfl, other⟩
      have dash : cs.head? = some '-' := by simpa using h.1
      cases cs with
      | nil => simp at dash
      | cons => exact other dash
    rw [List.cons_append, find?, if_neg stays, ih h.2, Option.map_map]
    rfl

/-- No tag opens where a dash follows every opening bracket. -/
theorem find?_of_dashed {cs : List Char} (h : dashed cs) : find? cs = none := by
  have passed := find?_append_of_dashed h []
  rwa [List.append_nil] at passed

/-- Either no bracket of a text opens anything, or there is a first one that does. -/
theorem dashed_or_opens (cs : List Char) :
    dashed cs ∨ ∃ before tail, cs = before ++ '<' :: tail ∧ dashed before ∧
      tail.head? ≠ some '-' := by
  induction cs with
  | nil => exact .inl rfl
  | cons c rest ih =>
    by_cases opens : c = '<' ∧ rest.head? ≠ some '-'
    · obtain ⟨rfl, undashed⟩ := opens
      exact .inr ⟨[], rest, rfl, rfl, undashed⟩
    · rw [not_and_or, not_not] at opens
      rcases ih with plain | ⟨before, tail, rfl, plain, undashed⟩
      · left
        rw [dashed, plain, Bool.and_true, Bool.or_eq_true, bne_iff_ne, beq_iff_eq]
        exact opens
      · refine .inr ⟨c :: before, tail, rfl, ?_, undashed⟩
        rw [dashed, plain, Bool.and_true, Bool.or_eq_true, bne_iff_ne, beq_iff_eq]
        -- A bracket right before the one that opens would open first.
        refine opens.imp_right fun dash ↦ ?_
        cases before with
        | nil => simp at dash
        | cons => exact dash

/-- The first opening bracket without a dash opens the tag, if it is closed. -/
theorem find?_of_opens {before tail : List Char} (plain : dashed before)
    (undashed : tail.head? ≠ some '-') :
    find? (before ++ '<' :: tail) =
      (search '<' '>' 1 tail).found?.map fun (inside, after) ↦ (before, inside, after) := by
  rw [find?_append_of_dashed plain, find?, if_pos ⟨rfl, undashed⟩, close?_eq_search 0 tail,
    Option.map_map]
  simp only [Function.comp_def, List.append_nil]

end Tag

namespace Parsed

/-- Where no tag is found the rest is left over. -/
theorem fragmentsOf_none {rest : List Char} (h : Tag.find? rest = none) (text : List Char) :
    fragmentsOf text rest = leftover text rest := by
  rw [fragmentsOf]
  split
  · rfl
  · next found =>
    rw [h] at found
    contradiction

/-- A tag that is found stands between the text before it and the fragments after it. -/
theorem fragmentsOf_some {rest before inside after : List Char}
    (h : Tag.find? rest = some (before, inside, after)) (text : List Char) :
    fragmentsOf text rest = literal before ++ tagFragment inside :: fragmentsOf text after := by
  rw [fragmentsOf]
  split
  · next absent =>
    rw [h] at absent
    contradiction
  · next found =>
    rw [h] at found
    simp only [Option.some.injEq, Prod.mk.injEq] at found
    obtain ⟨rfl, rfl, rfl⟩ := found
    rfl

/-- Where no tag is found there is no chain. -/
theorem anyChain_none {rest : List Char} (h : Tag.find? rest = none) : anyChain rest = false := by
  rw [anyChain]
  split
  · rfl
  · next found =>
    rw [h] at found
    contradiction

/-- There is a chain in the tag that is found or after it. -/
theorem anyChain_some {rest before inside after : List Char}
    (h : Tag.find? rest = some (before, inside, after)) :
    anyChain rest = ((Chain.parseChars inside).isOk || anyChain after) := by
  rw [anyChain]
  split
  · next absent =>
    rw [h] at absent
    contradiction
  · next found =>
    rw [h] at found
    simp only [Option.some.injEq, Prod.mk.injEq] at found
    obtain ⟨-, rfl, rfl⟩ := found
    rfl

/-- A text has no more characters than bytes. -/
theorem length_le_byteLength (cs : List Char) : cs.length ≤ byteLength cs := by
  induction cs with
  | nil => exact Nat.zero_le _
  | cons c rest ih =>
    have := c.utf8Size_pos
    simp only [byteLength, List.length_cons] at *
    omega

/-- Either a text is cut into its fragments, or it stays whole because it has no tag with something
in it. -/
theorem ofChars_cases (cs : List Char) :
    ofChars cs = ⟨fragmentsOf cs cs, anyChain cs⟩ ∨
      ofChars cs = ⟨[.literal (.ofList cs)], false⟩ ∧ (Tag.find? cs = none ∨ cs = ['<', '>']) := by
  unfold ofChars
  split
  · next short =>
    refine .inr ⟨rfl, ?_⟩
    cases found : Tag.find? cs with
    | none => exact .inl rfl
    | some parts =>
      obtain ⟨before, inside, after⟩ := parts
      have eq := Tag.eq_append_of_find found
      have closes : '>' ∈ cs := by simp [eq]
      have bytes : byteLength cs < 3 := by simpa [closes, found] using short
      have length := length_le_byteLength cs
      have parts : cs.length = before.length + inside.length + after.length + 2 := by
        rw [eq]
        simp
        omega
      obtain rfl : before = [] := List.length_eq_zero_iff.1 (by omega)
      obtain rfl : inside = [] := List.length_eq_zero_iff.1 (by omega)
      obtain rfl : after = [] := List.length_eq_zero_iff.1 (by omega)
      exact .inr eq
  · exact .inl rfl

end Parsed

end TextTags
