import TextTags.Proofs.Chain.Cutting

/-!
# What reads as a chain

The grammar of chains, told by counting brackets. The body of a text has matching square brackets,
and each of its stretches between dots outside all brackets is a name, a group in square brackets,
or a name with such a group after it. These texts read as chains and no others, and the search for
the end of a group always comes to it.
-/

namespace TextTags

open Text

namespace Chain

/-- The angle brackets open after a text, where closing one with none open changes nothing. -/
def openAngles (cs : List Char) : Nat :=
  cs.foldl (fun angle c ↦ if c = '<' then angle + 1 else if c = '>' then angle - 1 else angle) 0

/-- Whether what follows a text stands outside all brackets. -/
def Outside (before : List Char) : Prop :=
  before.count '[' = before.count ']' ∧ openAngles before = 0

instance (before : List Char) : Decidable (Outside before) := inferInstanceAs (Decidable (_ ∧ _))

/-- A stretch without a dot outside all brackets, up to such a dot or the end. -/
structure Reaches (before piece after : List Char) : Prop where
  ends : after = [] ∨ ∃ later, after = '.' :: later ∧ Outside (before ++ piece)
  undivided : ∀ left right, piece = left ++ '.' :: right → ¬ Outside (before ++ left)

/-- A stretch of a text between two neighbouring dots outside all brackets, the ends of the text
standing for such dots. -/
structure IsPiece (body before piece after : List Char) : Prop extends
    Reaches before piece after where
  whole : body = before ++ piece ++ after
  starts : before = [] ∨ ∃ earlier, before = earlier ++ ['.'] ∧ Outside earlier

/-- Whether a text is a name, a group in square brackets, or a name and a group after it. -/
def IsSegment (piece : List Char) : Prop :=
  piece ≠ [] ∧ ('[' ∉ piece ∨ ∃ name param, piece = name ++ '[' :: (param ++ [']']) ∧
    '[' ∉ name ∧ Matches '[' ']' param)

private theorem openAngles_concat (before : List Char) (c : Char) :
    openAngles (before ++ [c]) =
      if c = '<' then openAngles before + 1 else if c = '>' then openAngles before - 1
        else openAngles before := by
  rw [openAngles, List.foldl_append]
  rfl

private theorem depthAfter_concat {depth : Nat} {before : List Char} {c : Char}
    (h : depthAfter '[' ']' 0 before = some depth) (stays : ¬ (c = ']' ∧ depth = 0)) :
    depthAfter '[' ']' 0 (before ++ [c]) =
      some (if c = '[' then depth + 1 else if c = ']' then depth - 1 else depth) := by
  rw [depthAfter_append, h, Option.bind_some, depthAfter]
  by_cases opens : c = '['
  · rw [if_pos opens, if_pos opens]
    rfl
  · by_cases closes : c = ']'
    · have hne : depth ≠ 0 := fun hno ↦ stays ⟨closes, hno⟩
      rw [if_neg opens, if_pos closes, if_neg hne, if_neg opens, if_pos closes]
      rfl
    · rw [if_neg opens, if_neg closes, if_neg opens, if_neg closes]
      rfl

private theorem outside_iff {square angle : Nat} {before : List Char}
    (squares : depthAfter '[' ']' 0 before = some square) (angles : openAngles before = angle) :
    Outside before ↔ square = 0 ∧ angle = 0 := by
  have counted := count_of_depthAfter (by decide) squares
  rw [Outside, angles]
  constructor
  · rintro ⟨evenly, hno⟩
    exact ⟨by omega, hno⟩
  · rintro ⟨hno, hno'⟩
    exact ⟨by omega, hno'⟩

/-- A character that is no dot outside all brackets may stand before a stretch or in it. -/
theorem reaches_cons {before piece after : List Char} {c : Char}
    (plain : ¬ (c = '.' ∧ Outside before)) :
    Reaches before (c :: piece) after ↔ Reaches (before ++ [c]) piece after := by
  have moved (cs : List Char) : before ++ c :: cs = before ++ [c] ++ cs := by simp
  constructor
  · rintro ⟨ends, undivided⟩
    refine ⟨?_, fun left right eq outside ↦ ?_⟩
    · rwa [moved] at ends
    · rw [← moved] at outside
      exact undivided (c :: left) right (by rw [eq]; rfl) outside
  · rintro ⟨ends, undivided⟩
    refine ⟨?_, fun left right eq outside ↦ ?_⟩
    · rwa [moved]
    · cases left with
      | nil =>
        rw [List.append_nil] at outside
        exact plain ⟨(List.cons.inj eq).1, outside⟩
      | cons d left =>
        obtain ⟨rfl, rest⟩ := List.cons.inj eq
        rw [moved] at outside
        exact undivided left right rest outside

/-- A stretch with which the text after some that has been read starts. -/
def Begins (done cs piece : List Char) : Prop :=
  ∃ after, cs = piece ++ after ∧ Reaches done piece after

/-- A stretch that follows a dot in the text after some that has been read. -/
def Follows (done cs piece : List Char) : Prop :=
  ∃ earlier after, cs = earlier ++ '.' :: (piece ++ after) ∧ Outside (done ++ earlier) ∧
    Reaches (done ++ earlier ++ ['.']) piece after

/-- Before a dot outside all brackets the stretch that comes first is empty. -/
theorem begins_dot {done rest piece : List Char} (outside : Outside done) :
    Begins done ('.' :: rest) piece ↔ piece = [] := by
  constructor
  · rintro ⟨after, eq, reaches⟩
    cases piece with
    | nil => rfl
    | cons c piece =>
      obtain ⟨rfl, -⟩ := List.cons.inj eq
      exact absurd (by rwa [List.append_nil]) (reaches.undivided [] piece rfl)
  · rintro rfl
    refine ⟨'.' :: rest, rfl, .inr ⟨rest, rfl, by rwa [List.append_nil]⟩, fun left right eq ↦ ?_⟩
    cases left <;> contradiction

/-- After such a dot the first stretch of the rest is one of those that follow. -/
theorem follows_dot {done rest piece : List Char} (outside : Outside done) :
    Follows done ('.' :: rest) piece ↔
      Begins (done ++ ['.']) rest piece ∨ Follows (done ++ ['.']) rest piece := by
  have moved (cs : List Char) : done ++ '.' :: cs = done ++ ['.'] ++ cs := by simp
  constructor
  · rintro ⟨earlier, after, eq, outer, reaches⟩
    cases earlier with
    | nil =>
      rw [List.append_nil] at reaches
      exact .inl ⟨after, (List.cons.inj eq).2, reaches⟩
    | cons c earlier =>
      obtain ⟨rfl, rest⟩ := List.cons.inj eq
      rw [moved] at outer reaches
      exact .inr ⟨earlier, after, rest, outer, reaches⟩
  · rintro (⟨after, rfl, reaches⟩ | ⟨earlier, after, rfl, outer, reaches⟩)
    · exact ⟨[], after, rfl, by rwa [List.append_nil], by rwa [List.append_nil]⟩
    · exact ⟨'.' :: earlier, after, rfl, by rwa [moved], by rwa [moved]⟩

private theorem begins_cons {done rest piece : List Char} {c : Char}
    (plain : ¬ (c = '.' ∧ Outside done)) :
    Begins done (c :: rest) piece ↔
      ∃ piece', piece = c :: piece' ∧ Begins (done ++ [c]) rest piece' := by
  constructor
  · rintro ⟨after, eq, reaches⟩
    cases piece with
    | nil =>
      rcases reaches.ends with rfl | ⟨later, rfl, outside⟩
      · contradiction
      · rw [List.append_nil] at outside
        exact absurd ⟨(List.cons.inj eq).1, outside⟩ plain
    | cons d piece =>
      obtain ⟨rfl, rest⟩ := List.cons.inj eq
      exact ⟨piece, rfl, after, rest, (reaches_cons plain).1 reaches⟩
  · rintro ⟨piece, rfl, after, rfl, reaches⟩
    exact ⟨after, rfl, (reaches_cons plain).2 reaches⟩

private theorem follows_cons {done rest piece : List Char} {c : Char}
    (plain : ¬ (c = '.' ∧ Outside done)) :
    Follows done (c :: rest) piece ↔ Follows (done ++ [c]) rest piece := by
  have moved (cs : List Char) : done ++ c :: cs = done ++ [c] ++ cs := by simp
  constructor
  · rintro ⟨earlier, after, eq, outer, reaches⟩
    cases earlier with
    | nil =>
      rw [List.append_nil] at outer
      exact absurd ⟨(List.cons.inj eq).1, outer⟩ plain
    | cons d earlier =>
      obtain ⟨rfl, rest⟩ := List.cons.inj eq
      rw [moved] at outer reaches
      exact ⟨earlier, after, rest, outer, reaches⟩
  · rintro ⟨earlier, after, rfl, outer, reaches⟩
    exact ⟨c :: earlier, after, rfl, by rwa [moved], by rwa [moved]⟩

/-- The stretches that a text is cut into after some has been read: the one it starts with, and
those that follow a dot. -/
theorem begins_iff_of_cutSegments {square angle : Nat} {done cs first : List Char}
    {others : List (List Char)} (squares : depthAfter '[' ']' 0 done = some square)
    (angles : openAngles done = angle)
    (h : cutSegments square angle cs = .ok (first :: others)) (piece : List Char) :
    (Begins done cs piece ↔ piece = first) ∧ (Follows done cs piece ↔ piece ∈ others) := by
  -- What has been read so far decides whether the next dot is outside. The pieces it has been cut
  -- into before do not matter.
  induction cs generalizing square angle done first others piece with
  | nil =>
    unfold cutSegments at h
    split at h
    · obtain ⟨rfl, rfl⟩ := List.cons.inj (Except.ok.inj h)
      refine ⟨⟨?_, ?_⟩, ⟨?_, fun mem ↦ absurd mem List.not_mem_nil⟩⟩
      · rintro ⟨after, eq, -⟩
        exact (List.append_eq_nil_iff.1 eq.symm).1
      · rintro rfl
        exact ⟨[], rfl, .inl rfl, fun left right eq ↦ by cases left <;> contradiction⟩
      · rintro ⟨earlier, after, eq, -⟩
        cases earlier <;> contradiction
    · contradiction
  | cons c rest ih =>
    have outside := outside_iff squares angles
    obtain ⟨first', others', ⟨rfl, rfl, rfl, cut, eq⟩ | ⟨dot, stray, cut, eq⟩⟩ := cutSegments_cons h
    · obtain ⟨rfl, rfl⟩ := List.cons.inj eq
      have here : Outside done := outside.2 ⟨rfl, rfl⟩
      have squares' : depthAfter '[' ']' 0 (done ++ ['.']) = some 0 :=
        depthAfter_concat squares (by decide)
      have later := ih squares' (by rw [openAngles_concat, angles]; rfl) cut
      refine ⟨begins_dot here, ?_⟩
      rw [follows_dot here, (later piece).1, (later piece).2, List.mem_cons]
    · obtain ⟨rfl, rfl⟩ := List.cons.inj eq
      have plain : ¬ (c = '.' ∧ Outside done) := fun h ↦ dot ⟨h.1, outside.1 h.2⟩
      have later := ih (depthAfter_concat squares stray) (by rw [openAngles_concat, angles]) cut
      refine ⟨?_, ?_⟩
      · rw [begins_cons plain]
        simp only [(later _).1, exists_eq_right]
      · rw [follows_cons plain, (later piece).2]

/-- A text is cut into its stretches between dots outside all brackets. -/
theorem mem_iff_isPiece {body : List Char} {pieces : List (List Char)}
    (h : cutSegments 0 0 body = .ok pieces) {piece : List Char} :
    piece ∈ pieces ↔ ∃ before after, IsPiece body before piece after := by
  obtain ⟨first, others, rfl, -, -⟩ := cutSegments_parts h
  have start : depthAfter '[' ']' 0 [] = some 0 := rfl
  have cut := begins_iff_of_cutSegments start rfl h piece
  rw [List.mem_cons, ← cut.1, ← cut.2]
  constructor
  · rintro (⟨after, rfl, reaches⟩ | ⟨earlier, after, rfl, outer, reaches⟩)
    · exact ⟨[], after, reaches, rfl, .inl rfl⟩
    · exact ⟨earlier ++ ['.'], after, reaches, by simp, .inr ⟨earlier, rfl, outer⟩⟩
  · rintro ⟨before, after, reaches, rfl, rfl | ⟨earlier, rfl, outer⟩⟩
    · exact .inl ⟨after, rfl, reaches⟩
    · exact .inr ⟨earlier, after, by simp, outer, reaches⟩

/-! ## The grammar -/

/-- A part is a name, a group, or both, if and only if it is not empty and reads as a segment. -/
theorem isSegment_iff {part : List Char} :
    IsSegment part ↔ part ≠ [] ∧ ∃ s, parseSegment part = .ok s := by
  simp only [IsSegment, parseSegment_eq_ok_iff, ← balanced_iff (show '[' ≠ ']' by decide)]
  refine and_congr_right fun _ ↦ ?_
  constructor
  · rintro (plain | ⟨name, param, eq, plain, closed⟩)
    · exact ⟨_, .inl ⟨plain, rfl⟩⟩
    · exact ⟨_, .inr ⟨name, param, eq, plain, closed, rfl⟩⟩
  · rintro ⟨s, ⟨plain, -⟩ | ⟨name, param, eq, plain, closed, -⟩⟩
    · exact .inl plain
    · exact .inr ⟨name, param, eq, plain, closed⟩

/-- In a part with matching brackets the first group is closed. -/
theorem search_of_balanced {name inner : List Char} (h : Balanced '[' ']' (name ++ '[' :: inner))
    (plain : '[' ∉ name) : ∃ inside after, search '[' ']' 1 inner = .closed inside after := by
  rw [Text.Balanced, depthAfter_append] at h
  obtain ⟨depth, before, rest⟩ := Option.bind_eq_some_iff.1 h
  have counted := count_of_depthAfter (by decide) before
  rw [List.count_eq_zero.2 plain] at counted
  obtain rfl : depth = 0 := by omega
  cases found : search '[' ']' 1 inner with
  | closed inside after => exact ⟨inside, after, rfl⟩
  | stray => exact absurd found (search_ne_stray (by decide) 0 inner)
  | unclosed =>
    -- Had the group no end, one more bracket would be open at the end of the part.
    obtain ⟨after, kept⟩ := (search_eq_unclosed_iff (by decide)).1 found
    have more := depthAfter_add kept 1
    rw [depthAfter, if_pos rfl, more] at rest
    exact absurd (Option.some.inj rest) (Nat.succ_ne_zero after)

/-- The body of a chain has matching square brackets, and its stretches are segments. -/
theorem exists_parseChars_iff_grammar {raw : List Char} :
    (∃ c, parseChars raw = .ok c) ↔
      raw ≠ [] ∧ Matches '[' ']' (body raw) ∧
        ∀ before piece after, IsPiece (body raw) before piece after → IsSegment piece := by
  rw [exists_parseChars_iff]
  refine and_congr_right fun _ ↦ ?_
  constructor
  · rintro ⟨parts, cut, each⟩
    obtain ⟨cut, full⟩ := bodySegments_eq_ok_iff.1 cut
    refine ⟨(balanced_iff (by decide)).1 (exists_cutSegments_iff.1 ⟨parts, cut⟩), ?_⟩
    intro before piece after isPiece
    have mem := (mem_iff_isPiece cut).2 ⟨before, after, isPiece⟩
    exact isSegment_iff.2 ⟨fun empty ↦ full (empty ▸ mem), each piece mem⟩
  · rintro ⟨closed, segments⟩
    obtain ⟨parts, cut⟩ : ∃ parts, cutSegments 0 0 (body raw) = .ok parts :=
      exists_cutSegments_iff.2 ((balanced_iff (by decide)).2 closed)
    have each (part : List Char) (mem : part ∈ parts) :
        part ≠ [] ∧ ∃ s, parseSegment part = .ok s := by
      obtain ⟨before, after, isPiece⟩ := (mem_iff_isPiece cut).1 mem
      exact isSegment_iff.1 (segments before part after isPiece)
    refine ⟨parts, bodySegments_eq_ok_iff.2 ⟨cut, fun mem ↦ ?_⟩, fun part mem ↦ (each part mem).2⟩
    exact (each [] mem).1 rfl

/-- In a part of a body the search for the end of the first group comes to it. -/
theorem cutGroup_of_bodySegments {body part name inner : List Char} {parts : List (List Char)}
    (h : bodySegments body = .ok parts) (mem : part ∈ parts)
    (cut : splitOnce '[' part = some (name, inner)) :
    ∃ inside after, search '[' ']' 0 ('[' :: inner) = .closed ('[' :: inside) after ∧
      cutGroup 1 inner = some (inside, after) := by
  obtain ⟨rfl, plain⟩ := splitOnce_eq_some_iff.1 cut
  obtain ⟨inside, after, found⟩ := search_of_balanced (balanced_of_bodySegments h mem) plain
  refine ⟨inside, after, ?_, ?_⟩
  · rw [search, if_pos rfl, found]
    rfl
  · rw [cutGroup_eq_search, found]
    rfl

/-- No part of a body is refused for a group left open. -/
theorem parseSegment_ne_unclosed {body part : List Char} {parts : List (List Char)}
    (h : bodySegments body = .ok parts) (mem : part ∈ parts) (text : String) :
    parseSegment part ≠ .error (.unclosed text) := by
  unfold parseSegment
  split
  · exact nofun
  · next name inner cut =>
    obtain ⟨inside, after, -, found⟩ := cutGroup_of_bodySegments h mem cut
    rw [found]
    cases after <;> exact nofun

/-- A text reads as a chain if and only if it is not empty, the square brackets of its body match,
and each stretch of the body between dots outside all brackets is a segment. A chain has a segment,
and a body that is cut at all has a part. In a part with a group the search for the end of the group
comes to it: no bracket is closed with none open, and no part is refused for a group left open. -/
theorem exists_parse_iff (raw : String) :
    ((∃ c, parse raw = .ok c) ↔
      raw ≠ "" ∧
        (∀ before, before <+: body raw.toList → before.count ']' ≤ before.count '[') ∧
        (body raw.toList).count ']' = (body raw.toList).count '[' ∧
        ∀ before piece after, IsPiece (body raw.toList) before piece after → IsSegment piece) ∧
    (∀ c, parse raw = .ok c → 0 < c.length) ∧
    ∀ parts, bodySegments (body raw.toList) = .ok parts → parts ≠ [] ∧ ∀ part ∈ parts,
      (∀ name inner, splitOnce '[' part = some (name, inner) → ∃ inside after,
        search '[' ']' 0 ('[' :: inner) = .closed ('[' :: inside) after ∧
          cutGroup 1 inner = some (inside, after)) ∧
      ∀ text, parseSegment part ≠ .error (.unclosed text) := by
  refine ⟨?_, fun c _ ↦ Nat.succ_pos _, fun parts cut ↦ ⟨?_, fun part mem ↦ ⟨?_, ?_⟩⟩⟩
  · have full : raw ≠ "" ↔ raw.toList ≠ [] := by simp
    unfold parse
    rw [exists_parseChars_iff_grammar, full]
    constructor
    · rintro ⟨hne, ⟨before, whole⟩, segments⟩
      exact ⟨hne, before, whole, segments⟩
    · rintro ⟨hne, before, whole, segments⟩
      exact ⟨hne, ⟨before, whole⟩, segments⟩
  · obtain ⟨first, others, rfl, -, -⟩ := cutSegments_parts (cutSegments_of_bodySegments cut)
    exact List.cons_ne_nil _ _
  · exact fun name inner split ↦ cutGroup_of_bodySegments cut mem split
  · exact parseSegment_ne_unclosed cut mem

/-- Dots and bars in brackets, a group without a name, and an alternative with a stray bracket. -/
theorem exists_parse_iff_nested :
    let raw := "a<.>b.c[d[.||]].[e]||f]"
    let before := "a<.>b.".toList
    let piece := "c[d[.||]]".toList
    (∃ c, parse raw = .ok c) ∧ body raw.toList = before ++ piece ++ ".[e]".toList ∧
      (∀ start, start <+: body raw.toList → start.count ']' ≤ start.count '[') ∧
      IsPiece (body raw.toList) before piece ".[e]".toList ∧ IsSegment piece := by
  intro raw before piece
  have parsed : ∃ c, parse raw = .ok c := by
    cases read : parse raw with
    | ok c => exact ⟨c, rfl⟩
    | error defect =>
      have ok : (parse raw).isOk := by decide +kernel
      rw [read] at ok
      contradiction
  have isPiece : IsPiece (body raw.toList) before piece ".[e]".toList := by
    refine ⟨⟨.inr ⟨"[e]".toList, rfl, by decide⟩, fun left right eq ↦ ?_⟩, by decide,
      .inr ⟨"a<.>b".toList, rfl, by decide⟩⟩
    have dots : ∀ left ∈ piece.inits, left ++ ['.'] <+: piece → ¬ Outside (before ++ left) := by
      decide
    refine dots left ?_ ⟨right, by simp [eq]⟩
    exact (List.mem_inits _ _).2 ⟨_, eq.symm⟩
  obtain ⟨-, prefixes, -, segments⟩ := (exists_parse_iff raw).1.1 parsed
  exact ⟨parsed, by decide, prefixes, isPiece, segments _ _ _ isPiece⟩

end Chain

end TextTags
