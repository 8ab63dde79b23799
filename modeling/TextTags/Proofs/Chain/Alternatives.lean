import TextTags.Proofs.Chain.Nested

/-!
# Alternatives one inside the other

A chain without an alternative that is followed by two bars and any text is read as the same chain
with this text as its alternative. So a tag whose alternative is a tag, and so on to a last text, is
cut out as one tag at each level.
-/

namespace TextTags

open Text

namespace Chain

/-- The bars behind a text without an alternative begin one, unless a bar before them does. -/
theorem cutAlternative_bars {t : List Char} (plain : ∀ i, ¬ BarsAt t i)
    (squares : t.count '[' = t.count ']') (angles : t.count '<' = t.count '>')
    (ends : t.getLast? ≠ some '|') (a : List Char) :
    cutAlternative 0 0 (t ++ '|' :: '|' :: a) = (t, some a) := by
  have here : BarsAt (t ++ '|' :: '|' :: a) t.length := by
    rw [BarsAt, List.take_left, List.drop_left]
    exact ⟨squares, angles, List.prefix_append ['|', '|'] a⟩
  rcases cutAlternative_whole (t ++ '|' :: '|' :: a) with ⟨-, hno⟩ | ⟨i, cut, bars, first⟩
  · exact absurd here (hno _)
  · have le : i ≤ t.length := by
      by_contra later
      exact first _ (not_le.1 later) here
    rcases Nat.lt_or_eq_of_le le with before | rfl
    · obtain ⟨square, angle, two⟩ := bars
      rw [List.take_append_of_le_length le] at square angle
      rw [List.drop_append_of_le_length le] at two
      have whole := List.take_append_drop i t
      cases rest : t.drop i with
      | nil => exact absurd (List.drop_eq_nil_iff.1 rest) (not_le.2 before)
      | cons x others =>
        rw [rest] at two whole
        cases others with
        | nil =>
          -- The bar would be the last character.
          obtain rfl : '|' = x := (List.cons_prefix_cons.1 two).1
          exact absurd (by rw [← whole, List.getLast?_concat]) ends
        | cons y others =>
          refine absurd ⟨square, angle, ?_⟩ (plain i)
          obtain ⟨rfl, second⟩ := List.cons_prefix_cons.1 two
          obtain rfl : '|' = y := (List.cons_prefix_cons.1 second).1
          rw [rest]
          exact List.prefix_append ['|', '|'] others
    · rw [cut, List.take_left, ← List.drop_drop, List.drop_left]
      rfl

private theorem withFallback_withFallback (first second : Option String) (root : Segment)
    (rest : List Segment) :
    withFallback second (withFallback first root rest).1 (withFallback first root rest).2 =
      withFallback second root rest := by
  induction rest generalizing root with
  | nil => rfl
  | cons s rest ih =>
    simp only [withFallback]
    rw [ih]

/-- A chain with an alternative after it. -/
def orElse (c : Chain) (alternative : String) : Chain :=
  let (root, rest) := withFallback (some alternative) c.root c.rest
  { origin := c.origin ++ "||" ++ alternative, root, rest }

/-- A chain as it is read from a text that can stand before an alternative: it has none itself, its
text neither begins with a dash, before which no tag opens, nor ends in a bar, and the angle
brackets in it match. -/
structure StandsAlone (c : Chain) : Prop where
  parses : parse c.origin = .ok c
  last : c.alternative = none
  opens : c.origin.toList.head? ≠ some '-'
  ends : c.origin.toList.getLast? ≠ some '|'
  angles : Matches '<' '>' c.origin.toList

/-- The alternative of a chain is the one that it was given last. -/
theorem alternative_orElse (c : Chain) (a : String) : (c.orElse a).alternative = some a :=
  fallback_withFallback (some a) c.root c.rest

variable {c : Chain}

private theorem StandsAlone.parse_orElse (h : c.StandsAlone) (a : String) :
    parse (c.origin ++ "||" ++ a) = .ok (c.orElse a) := by
  have parses : parseChars c.origin.toList = .ok c := h.parses
  obtain ⟨-, parts, root, rest, body, segments, eq⟩ := parseChars_eq_ok_iff.1 parses
  -- Without an alternative the whole text is the body, and nothing in it begins one.
  have hno : cutAlternative 0 0 c.origin.toList = (c.origin.toList, none) ∧
      ∀ i, ¬ BarsAt c.origin.toList i := by
    rcases cutAlternative_whole c.origin.toList with plain | ⟨i, cut, -, -⟩
    · exact plain
    · obtain ⟨-, -, -, -, -, alternative⟩ := cut_of_parseChars parses
      rw [cut, h.last] at alternative
      cases alternative
  have squares : c.origin.toList.count '[' = c.origin.toList.count ']' := by
    have depth := exists_cutSegments_iff.1 ⟨parts, cutSegments_of_bodySegments body⟩
    simp only [hno.1] at depth
    have counts := count_of_depthAfter (by decide) depth
    omega
  have cut := cutAlternative_bars hno.2 squares h.angles.whole.symm h.ends a.toList
  have text : (c.origin ++ "||" ++ a).toList = c.origin.toList ++ '|' :: '|' :: a.toList := by simp
  rw [parse, text, parseChars_eq_ok_iff]
  refine ⟨by simp, parts, root, rest, ?_, segments, ?_⟩
  · rw [cut, ← body, hno.1]
  · have first : c.root = _ := congrArg Chain.root eq
    have others : c.rest = _ := congrArg Chain.rest eq
    rw [hno.1] at first others
    rw [orElse, first, others, withFallback_withFallback, cut, ← text]
    simp only [Option.map_some, String.ofList_toList]

private theorem StandsAlone.balanced (h : c.StandsAlone) {a : String}
    (inner : Balanced '<' '>' a.toList) :
    Balanced '<' '>' (c.origin ++ "||" ++ a).toList := by
  have bars : Balanced '<' '>' ['|', '|'] := .of_plain (by decide) (by decide)
  simpa using ((h.angles.balanced (by decide)).append bars).append inner

/-- The segments are those of the chain but for the alternative. -/
theorem map_segments_orElse {α : Type} {g : Segment → α}
    (keeps : ∀ s fallback, g { s with fallback } = g s) (c : Chain) (a : String) :
    (c.orElse a).segments.map g = c.segments.map g :=
  map_withFallback keeps (some a) c.root c.rest

/-- An alternative adds no parameter. -/
theorem params_orElse (c : Chain) (a : String) : (c.orElse a).params = c.params := by
  have all := map_segments_orElse (g := (·.param)) (fun _ _ ↦ rfl) c a
  simpa [params, List.filterMap_map] using congrArg (List.filterMap id) all

end Chain

/-- The text of alternatives one inside the other: each chain in a tag, with two bars and the text
of the next ones behind it. -/
def alternatives (final : String) : List Chain → String
  | [] => final
  | c :: rest => "<" ++ (c.origin ++ "||" ++ alternatives final rest) ++ ">"

/-- The tag of a chain with the ones after it as its alternative. -/
def trial (final : String) (c : Chain) (rest : List Chain) : Tag :=
  ⟨c.origin ++ "||" ++ alternatives final rest, c.orElse (alternatives final rest)⟩

section

variable {final : String} {cs : List Chain}

private theorem balanced_alternatives (each : ∀ c ∈ cs, c.StandsAlone)
    (closed : Balanced '<' '>' final.toList) : Balanced '<' '>' (alternatives final cs).toList := by
  induction cs with
  | nil => exact closed
  | cons c rest ih =>
    have inside := (each c List.mem_cons_self).balanced
      (ih fun c mem ↦ each c (List.mem_cons_of_mem _ mem))
    simpa [alternatives] using inside.wrap (by decide)

/-- The text is one tag. -/
theorem single?_alternatives {c : Chain} {rest : List Chain} (each : ∀ d ∈ c :: rest, d.StandsAlone)
    (closed : Balanced '<' '>' final.toList) :
    (Parsed.ofText (alternatives final (c :: rest))).single? = some (trial final c rest) := by
  have first := each c List.mem_cons_self
  obtain ⟨a, next⟩ : ∃ a, a = alternatives final rest := ⟨_, rfl⟩
  have inner : Balanced '<' '>' a.toList :=
    next ▸ balanced_alternatives (fun d mem ↦ each d (List.mem_cons_of_mem _ mem)) closed
  obtain ⟨inside, eq⟩ : ∃ inside, inside = (c.origin ++ "||" ++ a).toList := ⟨_, rfl⟩
  have angles : Balanced '<' '>' inside := eq ▸ first.balanced inner
  have opens : inside.head? ≠ some '-' := by
    have head := first.opens
    rw [eq]
    cases chars : c.origin.toList with
    | nil => simp [chars]
    | cons d others => simpa [chars] using head
  have nonempty : inside ≠ [] := by simp [eq]
  have text : (alternatives final (c :: rest)).toList = '<' :: inside ++ ['>'] := by
    simp [alternatives, eq, next]
  have parses : Chain.parseChars inside = .ok (c.orElse a) := eq ▸ first.parse_orElse a
  rw [Parsed.ofText, text, Parsed.ofChars_tag angles opens nonempty, Parsed.tagFragment, parses,
    trial, ← next, eq, String.ofList_toList]
  rfl

end

end TextTags
