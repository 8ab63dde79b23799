import TextTags.Proofs.Chain.Cutting

/-!
# Tags around nested text

A tag whose parameter has matching brackets is cut out and read as one segment, whatever bars, dots
and dashes the parameter holds.
-/

namespace TextTags

open Text

namespace Tag

private theorem close?_append {depth after : Nat} {cs : List Char}
    (h : depthAfter '<' '>' depth cs = some after) (rest : List Char) :
    close? (depth + 1) (cs ++ rest) =
      (close? (after + 1) rest).map fun (inside, others) ↦ (cs ++ inside, others) := by
  rw [close?_eq_search, search_append h, Closing.found?_passing, close?_eq_search]

/-- A tag is closed by the bracket after its balanced inside. -/
theorem close?_balanced {inside : List Char} (h : Balanced '<' '>' inside) (rest : List Char) :
    close? 1 (inside ++ '>' :: rest) = some (inside, rest) := by
  rw [close?_append h]
  simp [close?]

/-- A text that is one tag. -/
theorem find?_tag {inside : List Char} (h : Balanced '<' '>' inside)
    (opens : inside.head? ≠ some '-')
    (hne : inside ≠ []) : find? ('<' :: inside ++ ['>']) = .some ([], inside, []) := by
  have head : (inside ++ ['>']).head? ≠ .some '-' := by
    obtain ⟨c, cs, rfl⟩ := List.exists_cons_of_ne_nil hne
    exact opens
  rw [List.cons_append, find?, if_pos ⟨rfl, head⟩, close?_balanced h]
  rfl

end Tag

namespace Parsed

/-- A text that is one tag has this tag as its only fragment. -/
theorem ofChars_tag {inside : List Char} (h : Balanced '<' '>' inside)
    (opens : inside.head? ≠ some '-') (hne : inside ≠ []) :
    ofChars ('<' :: inside ++ ['>']) =
      ⟨[tagFragment inside], (Chain.parseChars inside).isOk⟩ := by
  have found := Tag.find?_tag h opens hne
  have long : ¬ byteLength ('<' :: inside ++ ['>']) < 3 := by
    have := length_le_byteLength ('<' :: inside ++ ['>'])
    have := List.length_pos_iff.2 hne
    simp only [List.length_append, List.length_cons, List.length_nil] at *
    omega
  have rest : fragmentsOf ('<' :: inside ++ ['>']) [] = [] := fragmentsOf_none rfl _
  unfold ofChars
  rw [fragmentsOf_some found, rest, anyChain_some found, anyChain_none rfl, found]
  rw [List.cons_append] at long ⊢
  simp [long, literal]

end Parsed

namespace Chain

private theorem cutGroup_append {depth after : Nat} {cs : List Char}
    (h : depthAfter '[' ']' depth cs = some after) (rest : List Char) :
    cutGroup (depth + 1) (cs ++ rest) =
      (cutGroup (after + 1) rest).map fun (inside, others) ↦ (cs ++ inside, others) := by
  rw [cutGroup_eq_search, search_append h, Closing.found?_passing, cutGroup_eq_search]

/-- Inside a group no dot parts segments. -/
theorem cutSegments_append {depth after : Nat} {cs : List Char}
    (h : depthAfter '[' ']' depth cs = some after) (angle : Nat) :
    ∃ angle', ∀ rest piece pieces, cutSegments (after + 1) angle' rest = .ok (piece :: pieces) →
      cutSegments (depth + 1) angle (cs ++ rest) = .ok ((cs ++ piece) :: pieces) := by
  induction cs generalizing depth angle with
  | nil =>
    obtain rfl := Option.some.inj h
    exact ⟨angle, fun rest piece pieces eq ↦ eq⟩
  | cons c cs ih =>
    obtain ⟨next, step, stays, eq⟩ := depthAfter_cons (by decide) h
    obtain ⟨angle', cut⟩ := ih step
      (if c = '<' then angle + 1 else if c = '>' then angle - 1 else angle)
    refine ⟨angle', fun rest piece pieces found ↦ ?_⟩
    rw [List.cons_append, cutSegments, if_neg (by omega), if_neg (by omega)]
    simp only [← eq, cut rest piece pieces found]
    rfl

/-- Inside a group no bars begin an alternative. -/
theorem cutAlternative_append {depth after : Nat} {cs : List Char}
    (h : depthAfter '[' ']' depth cs = some after) (angle : Int) :
    ∃ angle', ∀ rest, cutAlternative (depth + 1) angle (cs ++ rest) =
      (cs ++ (cutAlternative (after + 1) angle' rest).1,
        (cutAlternative (after + 1) angle' rest).2) := by
  induction cs generalizing depth angle with
  | nil =>
    obtain rfl := Option.some.inj h
    exact ⟨angle, fun rest ↦ rfl⟩
  | cons c cs ih =>
    obtain ⟨next, step, stays, eq⟩ := depthAfter_cons (by decide) h
    obtain ⟨angle', cut⟩ := ih step
      (if c = '<' then angle + 1 else if c = '>' then angle - 1 else angle)
    have square : (if c = '[' then (depth : Int) + 1 + 1 else if c = ']' then (depth : Int) + 1 - 1
        else (depth : Int) + 1) = next + 1 := by
      by_cases opens : c = '['
      · rw [if_pos opens] at eq ⊢
        omega
      · rw [if_neg opens] at eq ⊢
        by_cases closes : c = ']'
        · rw [if_pos closes] at eq ⊢
          omega
        · rw [if_neg closes] at eq ⊢
          omega
    refine ⟨angle', fun rest ↦ ?_⟩
    rw [List.cons_append, cutAlternative, if_neg (by omega)]
    simp only [square, cut rest]
    rfl

/-- A character at which no reader of chains cuts. -/
def isPlainChar (c : Char) : Bool :=
  c != '.' && c != '|' && c != '[' && c != ']' && c != '<' && c != '>'

private theorem cutAlternative_plain {name : List Char} (plain : ∀ c ∈ name, isPlainChar c)
    (rest : List Char) : cutAlternative 0 0 (name ++ rest) =
      (name ++ (cutAlternative 0 0 rest).1, (cutAlternative 0 0 rest).2) := by
  induction name with
  | nil => rfl
  | cons c cs ih =>
    have char := plain c List.mem_cons_self
    simp only [isPlainChar, Bool.and_eq_true, bne_iff_ne] at char
    rw [List.cons_append, cutAlternative, if_neg fun bars ↦ char.1.1.1.1.2 bars.1]
    simp [char, ih fun c mem ↦ plain c (List.mem_cons_of_mem _ mem)]

private theorem cutSegments_plain {name : List Char} (plain : ∀ c ∈ name, isPlainChar c)
    {rest piece : List Char} {pieces : List (List Char)}
    (h : cutSegments 0 0 rest = .ok (piece :: pieces)) :
    cutSegments 0 0 (name ++ rest) = .ok ((name ++ piece) :: pieces) := by
  induction name with
  | nil => exact h
  | cons c cs ih =>
    have char := plain c List.mem_cons_self
    simp only [isPlainChar, Bool.and_eq_true, bne_iff_ne] at char
    rw [List.cons_append, cutSegments, if_neg fun dot ↦ char.1.1.1.1.1 dot.1,
      if_neg fun stray ↦ char.1.1.2 stray.1]
    simp [char, ih fun c mem ↦ plain c (List.mem_cons_of_mem _ mem)]
    rfl

private theorem cutAlternative_group {name param : List Char} (plain : ∀ c ∈ name, isPlainChar c)
    (h : Balanced '[' ']' param) : cutAlternative 0 0 (name ++ '[' :: (param ++ [']'])) =
      (name ++ '[' :: (param ++ [']']), none) := by
  obtain ⟨angle, inner⟩ := cutAlternative_append (h.depthAfter 0) 0
  have last : cutAlternative ((0 : Nat) + 1) angle [']'] = ([']'], none) := by
    simp [cutAlternative]
  have group : cutAlternative 0 0 ('[' :: (param ++ [']'])) = ('[' :: (param ++ [']']), none) := by
    rw [cutAlternative, if_neg (by simp)]
    have whole := inner [']']
    rw [last] at whole
    simpa using congrArg (fun x ↦ ('[' :: x.1, x.2)) whole
  rw [cutAlternative_plain plain, group]

private theorem cutSegments_group {name param : List Char} (plain : ∀ c ∈ name, isPlainChar c)
    (h : Balanced '[' ']' param) : cutSegments 0 0 (name ++ '[' :: (param ++ [']'])) =
      .ok [name ++ '[' :: (param ++ [']'])] := by
  obtain ⟨angle, inner⟩ := cutSegments_append (h.depthAfter 0) 0
  have last : cutSegments (0 + 1) angle [']'] = .ok [[']']] := rfl
  apply cutSegments_plain plain
  rw [cutSegments, if_neg (by simp), if_neg (by simp)]
  have whole := inner [']'] [']'] [] last
  simp only [Nat.zero_add] at whole
  simp [whole]
  rfl

private theorem parseSegment_group {name param : List Char} (plain : ∀ c ∈ name, isPlainChar c)
    (h : Balanced '[' ']' param) :
    parseSegment (name ++ '[' :: (param ++ [']'])) = .ok (segment name (some param)) := by
  have open' : '[' ∉ name := by
    intro mem
    have := plain _ mem
    simp [isPlainChar] at this
  have group : cutGroup (0 + 1) (param ++ [']']) = some (param, []) := by
    rw [cutGroup_append (h.depthAfter 0)]
    simp [cutGroup]
  rw [parseSegment, splitOnce_append open']
  simp only [Nat.zero_add] at group
  simp only [group]

/-- A root without a name is looked up as that of definitions. -/
theorem key_rootSegment (name : List Char) (param : Option (List Char)) :
    (rootSegment (segment name param)).key =
      if name = [] then unnamedRootKey else .ofList (lowerChars name) := by
  unfold rootSegment segment
  simp only [String.ofList_eq_empty_iff]
  split <;> rfl

/-- A name, which may be empty, with a parameter in balanced brackets is a chain of one segment. -/
theorem parseChars_rootGroup {name param : List Char} (plain : ∀ c ∈ name, isPlainChar c)
    (h : Balanced '[' ']' param) :
    parseChars (name ++ '[' :: (param ++ [']'])) = .ok
      { origin := .ofList (name ++ '[' :: (param ++ [']']))
        root := rootSegment (segment name (some param))
        rest := [] } := by
  have final : { rootSegment (segment name (some param)) with fallback := none } =
      rootSegment (segment name (some param)) := by
    have same := fallback_rootSegment (segment name (some param))
    change _ = none at same
    rw [← same]
  have body : bodySegments (name ++ '[' :: (param ++ [']'])) =
      .ok [name ++ '[' :: (param ++ [']'])] := by
    rw [bodySegments, cutSegments_group plain h]
    simp
  have segments : [name ++ '[' :: (param ++ [']'])].mapM parseSegment =
      .ok [segment name (some param)] := by
    rw [List.mapM_cons, parseSegment_group plain h]
    rfl
  rw [parseChars, cutAlternative_group plain h, if_neg (by simp)]
  simp only [body, segments, withFallback, Option.map_none, final]

/-- The same with a name. -/
theorem parseChars_group {name param : List Char} (named : name ≠ [])
    (plain : ∀ c ∈ name, isPlainChar c) (h : Balanced '[' ']' param) :
    parseChars (name ++ '[' :: (param ++ [']'])) = .ok
      { origin := .ofList (name ++ '[' :: (param ++ [']']))
        root := segment name (some param)
        rest := [] } := by
  have root : rootSegment (segment name (some param)) = segment name (some param) := by
    simp [rootSegment, segment, named]
  rw [parseChars_rootGroup plain h, root]

end Chain

end TextTags
