import TextTags.Proofs.Chain.Cutting

/-!
# Chains put together again

A chain keeps what it was read from: its segments with dots between them are the body, and the
alternative stands after two bars. The body alone reads as the same segments.
-/

namespace TextTags

open Text

namespace Chain

private theorem chars_of_parseSegment {part : List Char} {s : Segment}
    (h : parseSegment part = .ok s) :
    s.chars = part ∧ s.fallback = none := by
  rcases parseSegment_eq_ok_iff.1 h with ⟨-, rfl⟩ | ⟨name, param, rfl, -, -, rfl⟩
  · refine ⟨?_, rfl⟩
    simp [Segment.chars, segment]
  · refine ⟨?_, rfl⟩
    simp [Segment.chars, segment]

/-- The segments read from parts are written as these, and have no fallback. -/
theorem chars_of_mapM {parts : List (List Char)} {segments : List Segment}
    (h : parts.mapM parseSegment = .ok segments) :
    segments.map Segment.chars = parts ∧ ∀ s ∈ segments, s.fallback = none := by
  have each := mapM_eq_ok_iff.1 h
  clear h
  induction each with
  | nil => exact ⟨rfl, nofun⟩
  | cons read _ ih =>
    obtain ⟨written, plain⟩ := chars_of_parseSegment read
    rw [List.map_cons, written, ih.1]
    exact ⟨rfl, List.forall_mem_cons.2 ⟨plain, ih.2⟩⟩

private theorem chars_rootSegment (s : Segment) : (rootSegment s).chars = s.chars :=
  apply_rootSegment (fun _ _ ↦ rfl) s

/-- A fallback is put on the last segment alone. -/
theorem dropLast_withFallback (fallback : Option String) (root : Segment) (rest : List Segment) :
    ((withFallback fallback root rest).1 :: (withFallback fallback root rest).2).dropLast =
      (root :: rest).dropLast := by
  induction rest generalizing root with
  | nil => rfl
  | cons s rest ih =>
    have others := ih s
    simp only [withFallback, List.dropLast_cons_cons] at others ⊢
    rw [others]

/-- Segments without their fallback. -/
def withoutFallback (s : Segment) : Segment := { s with fallback := none }

private theorem withoutFallback_eq_self {s : Segment} (h : s.fallback = none) :
    withoutFallback s = s := by
  rw [withoutFallback, ← h]

/-- To put no fallback on segments that have none changes nothing. -/
theorem withFallback_none {root : Segment} {rest : List Segment}
    (h : ∀ s ∈ root :: rest, s.fallback = none) : withFallback none root rest = (root, rest) := by
  induction rest generalizing root with
  | nil =>
    have same := withoutFallback_eq_self (h root List.mem_cons_self)
    rw [withFallback]
    exact congrArg (·, []) same
  | cons s rest ih =>
    rw [withFallback, ih fun s' mem ↦ h s' (List.mem_cons_of_mem _ mem)]

/-- What a text that reads as a chain was read from: its segments are written as its body, and are
those of the body's chain with the alternative put on the last. -/
theorem segments_of_parseChars {raw : List Char} {c : Chain} (h : parseChars raw = .ok c) :
    ∃ root rest, (∀ s ∈ root :: rest, s.fallback = none) ∧
      c.segments = (withFallback ((cutAlternative 0 0 raw).2.map .ofList) root rest).1 ::
        (withFallback ((cutAlternative 0 0 raw).2.map .ofList) root rest).2 ∧
      joinWith ['.'] ((root :: rest).map Segment.chars) = body raw ∧
      parseChars (body raw) = .ok ⟨.ofList (body raw), root, rest⟩ := by
  obtain ⟨-, parts, root, rest, cut, read, rfl⟩ := parseChars_eq_ok_iff.1 h
  rw [cutAlternative_fst] at cut
  obtain ⟨written, plain⟩ := chars_of_mapM read
  have plain' : ∀ s ∈ rootSegment root :: rest, s.fallback = none := by
    refine List.forall_mem_cons.2 ⟨?_, fun s mem ↦ plain s (List.mem_cons_of_mem _ mem)⟩
    exact (fallback_rootSegment root).trans (plain root List.mem_cons_self)
  have joined := joinWith_cutSegments (cutSegments_of_bodySegments cut)
  refine ⟨rootSegment root, rest, plain', rfl, ?_, parseChars_eq_ok_iff.2 ⟨?_, ?_⟩⟩
  · rw [← joined, ← written, List.map_cons, chars_rootSegment, List.map_cons]
  · intro empty
    obtain ⟨cut, full⟩ := bodySegments_eq_ok_iff.1 cut
    rw [empty] at cut
    obtain rfl := Except.ok.inj cut
    exact full List.mem_cons_self
  · refine ⟨parts, root, rest, ?_, read, ?_⟩
    · rw [cutAlternative_body]
      exact cut
    · rw [cutAlternative_body, Option.map_none, withFallback_none plain']

private theorem toList_join (c : Chain) (start stop : Nat) :
    (c.join start stop).toList =
      joinWith ['.'] (((c.segments.map Segment.chars).take stop).drop start) := by
  rw [join, String.toList_ofList, List.map_drop, List.map_take]

/-- A chain loses nothing of the text it was read from: its segments joined, and the alternative
after two bars, are the text. Only the last segment has a fallback. Wherever the segments are parted
the two sides joined, with a dot between them unless one is empty, are all of them joined; and these
read as the same segments without the fallback. -/
theorem parse_join {raw : String} {c : Chain} (h : parse raw = .ok c) :
    c.join 0 c.length ++ (c.alternative.map ("||" ++ ·)).getD "" = raw ∧
      (∀ s ∈ c.segments.dropLast, s.fallback = none) ∧
      (∀ i ≤ c.length, c.join 0 i ++ (if 0 < i ∧ i < c.length then "." else "") ++
        c.join i c.length = c.join 0 c.length) ∧
      ∃ body, parse (c.join 0 c.length) = .ok body ∧
        body.segments = c.segments.map withoutFallback := by
  obtain ⟨root, rest, plain, segments, joined, read⟩ := segments_of_parseChars h
  have length : (c.segments.map Segment.chars).length = c.length := List.length_map _
  have whole : c.join 0 c.length = .ofList (body raw.toList) := by
    apply String.toList_injective
    rw [toList_join, ← length, List.take_length, List.drop_zero, segments,
      map_withFallback fun _ _ ↦ rfl, joined, String.toList_ofList]
  refine ⟨?_, ?_, fun i bound ↦ ?_, ⟨.ofList (body raw.toList), root, rest⟩, ?_, ?_⟩
  · obtain ⟨-, -, -, -, -, alternative⟩ := cut_of_parseChars h
    have cut := eq_append_of_cutAlternative raw.toList
    apply String.toList_injective
    rw [whole, alternative]
    cases after : (cutAlternative 0 0 raw.toList).2 with
    | none =>
      rw [after] at cut
      simpa using cut.symm
    | some text =>
      rw [after] at cut
      simpa using cut.symm
  · rw [segments, dropLast_withFallback]
    exact fun s mem ↦ plain s (List.mem_of_mem_dropLast mem)
  · apply String.toList_injective
    have parted := joinWith_take_drop ['.'] (c.segments.map Segment.chars) (length ▸ bound)
    rw [length] at parted
    have dot : (if 0 < i ∧ i < c.length then "." else "").toList =
        if 0 < i ∧ i < c.length then ['.'] else [] := by
      split <;> rfl
    have all : (c.segments.map Segment.chars).take c.length = c.segments.map Segment.chars := by
      rw [← length, List.take_length]
    rw [String.toList_append, String.toList_append, dot, toList_join, toList_join, toList_join, all,
      List.drop_zero, List.drop_zero, parted]
  · rw [whole, parse, String.toList_ofList]
    exact read
  · rw [segments, map_withFallback fun _ _ ↦ rfl]
    have same : (root :: rest).map withoutFallback = (root :: rest).map id :=
      List.map_congr_left fun s mem ↦ withoutFallback_eq_self (plain s mem)
    rw [same, List.map_id]
    rfl

/-- A group without a name, a dot and bars inside a group, and an alternative with dots, brackets
and bars. -/
theorem parse_join_nested :
    let c : Chain := ⟨"[a.b].C[<d||[]>]||e.f[||g", ⟨"definition", "", some "a.b", none⟩,
      [⟨"c", "C", some "<d||[]>", some "e.f[||g"⟩]⟩
    parse "[a.b].C[<d||[]>]||e.f[||g" = .ok c ∧ c.join 0 1 ++ "." ++ c.join 1 2 = c.join 0 2 ∧
      c.join 0 2 ++ "||" ++ "e.f[||g" = "[a.b].C[<d||[]>]||e.f[||g" ∧
      ∃ body, parse (c.join 0 2) = .ok body ∧ body.segments = c.segments.map withoutFallback := by
  intro c
  have parsed : parse "[a.b].C[<d||[]>]||e.f[||g" = .ok c := by decide +kernel
  obtain ⟨whole, -, parted, again⟩ := parse_join parsed
  exact ⟨parsed, parted 1 (by decide), whole, again⟩

end Chain

end TextTags
