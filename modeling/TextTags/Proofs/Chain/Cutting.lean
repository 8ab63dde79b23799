import TextTags.Proofs.Chain.Parts
import TextTags.Proofs.Text.Closing
import TextTags.Proofs.Text.Pieces

/-!
# Where a chain is cut

What each reader of a chain cuts off and keeps: the alternative after the first two bars outside
all brackets, the segments between dots, and the group that ends a segment. Nothing is lost at a
cut, and what is kept is not cut again.
-/

namespace TextTags

open Text

namespace Chain

/-- Whether two bars at a place begin the alternative: before it, of each sort of brackets as many
are closed as opened. -/
def BarsAt (raw : List Char) (i : Nat) : Prop :=
  (raw.take i).count '[' = (raw.take i).count ']' ∧
    (raw.take i).count '<' = (raw.take i).count '>' ∧ ['|', '|'] <+: raw.drop i

instance (raw : List Char) (i : Nat) : Decidable (BarsAt raw i) :=
  inferInstanceAs (Decidable (_ ∧ _))

/-- The text up to the first place at which the alternative begins, all of it if there is none. -/
def body (raw : List Char) : List Char :=
  match (List.range raw.length).find? fun i ↦ decide (BarsAt raw i) with
  | some i => raw.take i
  | none => raw

private theorem lt_length_of_barsAt {raw : List Char} {i : Nat} (h : BarsAt raw i) :
    i < raw.length := by
  have long := h.2.2.length_le
  simp only [List.length_cons, List.length_nil, List.length_drop] at long
  omega

/-- What begins the alternative of a beginning of a text begins that of the text. -/
theorem barsAt_of_take {raw : List Char} {i j : Nat} (h : BarsAt (raw.take i) j) :
    BarsAt raw j ∧ j < i := by
  have short : j < i := by
    have inside := lt_length_of_barsAt h
    rw [List.length_take] at inside
    omega
  have same : (raw.take i).take j = raw.take j := by
    rw [List.take_take, Nat.min_eq_left (by omega)]
  obtain ⟨square, angle, bars⟩ := h
  rw [same] at square angle
  rw [List.drop_take] at bars
  exact ⟨⟨square, angle, bars.trans (List.take_prefix _ _)⟩, short⟩

/-- The count of open brackets goes up or down by the character that is read. -/
theorem count_concat {opening closing : Char} (apart : opening ≠ closing) {depth : Int}
    {done : List Char} (h : depth + done.count closing = done.count opening) (c : Char) :
    (if c = opening then depth + 1 else if c = closing then depth - 1 else depth) +
        (done ++ [c]).count closing = (done ++ [c]).count opening := by
  rw [List.count_append, List.count_append]
  by_cases opens : c = opening
  · subst opens
    rw [if_pos rfl, List.count_singleton_self, List.count_cons_of_ne apart, List.count_nil]
    omega
  · rw [if_neg opens]
    by_cases closes : c = closing
    · subst closes
      rw [if_pos rfl, List.count_singleton_self, List.count_cons_of_ne opens, List.count_nil]
      omega
    · rw [if_neg closes, List.count_cons_of_ne opens, List.count_cons_of_ne closes,
        List.count_nil, List.count_nil]
      omega

/-- The cut is made at the first place at which the alternative begins. The brackets are counted
from the start of a text of which some has been read. -/
theorem cutAlternative_cases {square angle : Int} {done : List Char} (cs : List Char)
    (squares : square + done.count ']' = done.count '[')
    (angles : angle + done.count '>' = done.count '<') :
    (cutAlternative square angle cs = (cs, none) ∧ ∀ i, ¬ BarsAt (done ++ cs) (done.length + i)) ∨
      ∃ i, cutAlternative square angle cs = (cs.take i, some (cs.drop (i + 2))) ∧
        BarsAt (done ++ cs) (done.length + i) ∧
        ∀ j < i, ¬ BarsAt (done ++ cs) (done.length + j) := by
  -- The text behind is the place; what has been read moves on with it, and the counts with that.
  induction cs generalizing square angle done with
  | nil =>
    refine .inl ⟨rfl, fun i bars ↦ ?_⟩
    have inside := lt_length_of_barsAt bars
    rw [List.append_nil] at inside
    omega
  | cons c rest ih =>
    have here : BarsAt (done ++ c :: rest) (done.length + 0) ↔
        c = '|' ∧ square = 0 ∧ angle = 0 ∧ rest.head? = some '|' := by
      have bars : ['|', '|'] <+: c :: rest ↔ c = '|' ∧ rest.head? = some '|' := by
        cases rest with
        | nil => simp
        | cons => simp [eq_comm]
      rw [BarsAt, Nat.add_zero, List.take_left, List.drop_left, bars]
      constructor
      · rintro ⟨evenly, evenly', bar, next⟩
        exact ⟨bar, by omega, by omega, next⟩
      · rintro ⟨bar, hno, hno', next⟩
        exact ⟨by omega, by omega, bar, next⟩
    by_cases cut : c = '|' ∧ square = 0 ∧ angle = 0 ∧ rest.head? = some '|'
    · refine .inr ⟨0, ?_, here.2 cut, fun j negative ↦ absurd negative (Nat.not_lt_zero j)⟩
      rw [cutAlternative, if_pos cut, List.take_zero, List.drop_succ_cons, List.drop_one]
    · have next (i : Nat) : BarsAt (done ++ c :: rest) (done.length + (i + 1)) ↔
          BarsAt ((done ++ [c]) ++ rest) ((done ++ [c]).length + i) := by
        rw [List.append_assoc, List.singleton_append, List.length_append, List.length_singleton,
          Nat.add_assoc, Nat.add_comm 1 i]
      rw [cutAlternative, if_neg cut]
      rcases ih (count_concat (by decide) squares c) (count_concat (by decide) angles c) with
        ⟨eq, hno⟩ | ⟨i, eq, bars, first⟩
      · refine .inl ⟨by simp only [eq], fun i bars ↦ ?_⟩
        cases i with
        | zero => exact cut (here.1 bars)
        | succ i => exact hno i ((next i).1 bars)
      · refine .inr ⟨i + 1, by simp only [eq]; rfl, (next i).2 bars, fun j before bars' ↦ ?_⟩
        cases j with
        | zero => exact cut (here.1 bars')
        | succ j => exact first j (by omega) ((next j).1 bars')

/-- What is cut off a text: nothing, or what follows the bars at the first place. -/
theorem cutAlternative_whole (raw : List Char) :
    (cutAlternative 0 0 raw = (raw, none) ∧ ∀ i, ¬ BarsAt raw i) ∨
      ∃ i, cutAlternative 0 0 raw = (raw.take i, some (raw.drop (i + 2))) ∧ BarsAt raw i ∧
        ∀ j < i, ¬ BarsAt raw j := by
  simpa using @cutAlternative_cases 0 0 [] raw rfl rfl

/-- What stands before the cut is the body of a chain. -/
theorem cutAlternative_fst (raw : List Char) : (cutAlternative 0 0 raw).1 = body raw := by
  unfold body
  rcases cutAlternative_whole raw with ⟨eq, hno⟩ | ⟨i, eq, bars, first⟩
  · have absent : (List.range raw.length).find? (fun i ↦ decide (BarsAt raw i)) = .none := by
      rw [List.find?_eq_none]
      intro i _
      simpa using hno i
    rw [eq, absent]
  · have found : (List.range raw.length).find? (fun i ↦ decide (BarsAt raw i)) = some i := by
      rw [List.find?_range_eq_some]
      refine ⟨by simpa using bars, List.mem_range.2 (lt_length_of_barsAt bars), fun j before ↦ ?_⟩
      simpa using first j before
    rw [eq, found]

/-- A text is its body, and after two bars its alternative. -/
theorem eq_append_of_cutAlternative (raw : List Char) :
    raw = body raw ++ ((cutAlternative 0 0 raw).2.map (['|', '|'] ++ ·)).getD [] := by
  rw [← cutAlternative_fst]
  rcases cutAlternative_whole raw with ⟨eq, -⟩ | ⟨i, eq, ⟨-, -, rest, bars⟩, -⟩
  · simp [eq]
  · have after : raw.drop (i + 2) = rest := by
      rw [← List.drop_drop, ← bars]
      rfl
    simp only [eq, after, Option.map_some, Option.getD_some]
    rw [bars, List.take_append_drop]

/-- There is no alternative in the body. -/
theorem cutAlternative_body (raw : List Char) :
    cutAlternative 0 0 (body raw) = (body raw, none) := by
  rw [← cutAlternative_fst]
  rcases cutAlternative_whole raw with ⟨eq, -⟩ | ⟨i, eq, -, first⟩
  · simp only [eq]
  · simp only [eq]
    rcases cutAlternative_whole (raw.take i) with ⟨again, -⟩ | ⟨j, -, bars, -⟩
    · exact again
    · have earlier := barsAt_of_take bars
      exact absurd earlier.1 (first j earlier.2)

/-! ## The segments -/

/-- What the first character of a text does to its stretches: it parts them, or it stands at the
start of the first. -/
theorem cutSegments_cons {square angle : Nat} {c : Char} {rest : List Char}
    {pieces : List (List Char)} (h : cutSegments square angle (c :: rest) = .ok pieces) :
    ∃ first others,
      (c = '.' ∧ square = 0 ∧ angle = 0 ∧ cutSegments 0 0 rest = .ok (first :: others) ∧
        pieces = [] :: first :: others) ∨
      (¬ (c = '.' ∧ square = 0 ∧ angle = 0) ∧ ¬ (c = ']' ∧ square = 0) ∧
        cutSegments (if c = '[' then square + 1 else if c = ']' then square - 1 else square)
          (if c = '<' then angle + 1 else if c = '>' then angle - 1 else angle) rest =
            .ok (first :: others) ∧
        pieces = (c :: first) :: others) := by
  unfold cutSegments at h
  by_cases dot : c = '.' ∧ square = 0 ∧ angle = 0
  · rw [if_pos dot] at h
    obtain ⟨rfl, rfl, rfl⟩ := dot
    obtain ⟨pieces', cut, rfl⟩ := exists_of_map_eq_ok h
    obtain ⟨first, others, rfl, -, -⟩ := cutSegments_parts cut
    exact ⟨first, others, .inl ⟨rfl, rfl, rfl, cut, rfl⟩⟩
  · rw [if_neg dot] at h
    by_cases stray : c = ']' ∧ square = 0
    · rw [if_pos stray] at h
      contradiction
    · rw [if_neg stray] at h
      obtain ⟨pieces', cut, rfl⟩ := exists_of_map_eq_ok h
      obtain ⟨first, others, rfl, -, -⟩ := cutSegments_parts cut
      exact ⟨first, others, .inr ⟨dot, stray, cut, rfl⟩⟩

/-- The stretches with dots between them are the text. -/
theorem joinWith_cutSegments {square angle : Nat} {cs : List Char} {pieces : List (List Char)}
    (h : cutSegments square angle cs = .ok pieces) : joinWith ['.'] pieces = cs := by
  induction cs generalizing square angle pieces with
  | nil =>
    unfold cutSegments at h
    split at h
    · obtain rfl := Except.ok.inj h
      rfl
    · contradiction
  | cons c rest ih =>
    obtain ⟨first, others, ⟨rfl, -, -, cut, rfl⟩ | ⟨-, -, cut, rfl⟩⟩ := cutSegments_cons h
    · rw [joinWith, ih cut]
      · rfl
      · exact List.cons_ne_nil _ _
    · rw [joinWith_cons_cons, ih cut]

/-- A text is cut into stretches if and only if its square brackets match. -/
theorem exists_cutSegments_iff {square angle : Nat} {cs : List Char} :
    (∃ pieces, cutSegments square angle cs = .ok pieces) ↔
      depthAfter '[' ']' square cs = some 0 := by
  induction cs generalizing square angle with
  | nil =>
    by_cases hno : square = 0
    · simp [cutSegments, depthAfter, hno]
    · simp [cutSegments, depthAfter, hno]
  | cons c rest ih =>
    have mapped {f : List (List Char) → List (List Char)} {square angle : Nat} :
        (∃ pieces, (cutSegments square angle rest).map f = .ok pieces) ↔
          ∃ pieces, cutSegments square angle rest = .ok pieces := by
      constructor
      · rintro ⟨pieces, eq⟩
        obtain ⟨pieces', cut, -⟩ := exists_of_map_eq_ok eq
        exact ⟨pieces', cut⟩
      · rintro ⟨pieces, cut⟩
        exact ⟨f pieces, by rw [cut]; rfl⟩
    unfold cutSegments depthAfter
    by_cases dot : c = '.' ∧ square = 0 ∧ angle = 0
    · rw [if_pos dot, mapped, ih, if_neg (by simp [dot.1]), if_neg (by simp [dot.1])]
    · rw [if_neg dot]
      by_cases stray : c = ']' ∧ square = 0
      · obtain ⟨rfl, rfl⟩ := stray
        simp
      · rw [if_neg stray, mapped, ih]
        by_cases opens : c = '['
        · rw [if_pos opens, if_pos opens]
        · by_cases closes : c = ']'
          · have hne : square ≠ 0 := fun hno ↦ stray ⟨closes, hno⟩
            rw [if_neg opens, if_neg opens, if_pos closes, if_pos closes, if_neg hne]
          · rw [if_neg opens, if_neg opens, if_neg closes, if_neg closes]

/-- The square brackets of each stretch match. -/
theorem depthAfter_of_cutSegments {square angle : Nat} {cs first : List Char}
    {others : List (List Char)} (h : cutSegments square angle cs = .ok (first :: others)) :
    depthAfter '[' ']' square first = some 0 ∧ ∀ piece ∈ others, Balanced '[' ']' piece := by
  induction cs generalizing square angle first others with
  | nil =>
    unfold cutSegments at h
    split at h
    · next hno =>
      obtain ⟨rfl, rfl⟩ := List.cons.inj (Except.ok.inj h)
      exact ⟨by rw [depthAfter, hno], List.forall_mem_nil _⟩
    · contradiction
  | cons c rest ih =>
    obtain ⟨first', others', ⟨rfl, rfl, rfl, cut, eq⟩ | ⟨dot, stray, cut, eq⟩⟩ := cutSegments_cons h
    · obtain ⟨rfl, rfl⟩ := List.cons.inj eq
      obtain ⟨head, tail⟩ := ih cut
      exact ⟨rfl, List.forall_mem_cons.2 ⟨head, tail⟩⟩
    · obtain ⟨rfl, rfl⟩ := List.cons.inj eq
      obtain ⟨head, tail⟩ := ih cut
      refine ⟨?_, tail⟩
      unfold depthAfter
      by_cases opens : c = '['
      · rwa [if_pos opens] at head ⊢
      · by_cases closes : c = ']'
        · have hne : square ≠ 0 := fun hno ↦ stray ⟨closes, hno⟩
          rw [if_neg opens, if_pos closes] at head ⊢
          rwa [if_neg hne]
        · rwa [if_neg opens, if_neg closes] at head ⊢

/-- The square brackets of a part of a body match. -/
theorem balanced_of_bodySegments {body part : List Char} {parts : List (List Char)}
    (h : bodySegments body = .ok parts) (mem : part ∈ parts) : Balanced '[' ']' part := by
  have cut := cutSegments_of_bodySegments h
  obtain ⟨first, others, rfl, -, -⟩ := cutSegments_parts cut
  obtain ⟨head, tail⟩ := depthAfter_of_cutSegments cut
  rcases List.mem_cons.1 mem with rfl | mem
  · exact head
  · exact tail part mem

/-- A group is cut where the search for its closing bracket ends. -/
theorem cutGroup_eq_search (depth : Nat) (cs : List Char) :
    cutGroup (depth + 1) cs = (search '[' ']' (depth + 1) cs).found? :=
  eq_found?_search (by decide) (fun _ ↦ rfl) (fun _ _ _ ↦ rfl) depth cs

/-- A group ends at the bracket that closes it. -/
theorem cutGroup_eq_some_iff {cs inside after : List Char} :
    cutGroup 1 cs = some (inside, after) ↔
      cs = inside ++ ']' :: after ∧ Balanced '[' ']' inside := by
  rw [cutGroup_eq_search, Text.Balanced, ← search_eq_closed_iff (by decide)]
  cases search '[' ']' (0 + 1) cs <;> simp [Closing.found?]

/-- A part reads as a segment if and only if it has no group, or one that ends it. -/
theorem parseSegment_eq_ok_iff {part : List Char} {s : Segment} :
    parseSegment part = .ok s ↔
      ('[' ∉ part ∧ s = segment part none) ∨
        ∃ name param, part = name ++ '[' :: (param ++ [']']) ∧ '[' ∉ name ∧
          Balanced '[' ']' param ∧ s = segment name (some param) := by
  constructor
  · intro h
    unfold parseSegment at h
    split at h
    · next absent =>
      refine .inl ⟨fun mem ↦ ?_, (Except.ok.inj h).symm⟩
      obtain ⟨name, inner, rfl, plain⟩ := List.eq_append_cons_of_mem mem
      rw [splitOnce_append plain] at absent
      contradiction
    · next name inner cut =>
      obtain ⟨rfl, plain⟩ := splitOnce_eq_some_iff.1 cut
      split at h
      · contradiction
      · next param group =>
        obtain ⟨rfl, closed⟩ := cutGroup_eq_some_iff.1 group
        exact .inr ⟨name, param, rfl, plain, closed, (Except.ok.inj h).symm⟩
      · contradiction
  · rintro (⟨plain, rfl⟩ | ⟨name, param, rfl, plain, closed, rfl⟩)
    · rw [parseSegment, splitOnce_eq_none plain]
    · have group : cutGroup 1 (param ++ [']']) = some (param, []) :=
        cutGroup_eq_some_iff.2 ⟨rfl, closed⟩
      rw [parseSegment, splitOnce_append plain]
      simp only [group]

private theorem exists_mapM_eq_ok_iff {ε α β : Type} {f : α → Except ε β} {as : List α} :
    (∃ bs, as.mapM f = .ok bs) ↔ ∀ a ∈ as, ∃ b, f a = .ok b := by
  simp only [mapM_eq_ok_iff]
  induction as with
  | nil => simp
  | cons a as ih =>
    simp only [List.forall₂_cons_left_iff, List.forall_mem_cons, ← ih]
    constructor
    · rintro ⟨-, b, bs, first, others, rfl⟩
      exact ⟨⟨b, first⟩, bs, others⟩
    · rintro ⟨⟨b, first⟩, bs, others⟩
      exact ⟨b :: bs, b, bs, first, others, rfl⟩

/-- A text reads as a chain if and only if it is not empty and all the parts of its body read as
segments. -/
theorem exists_parseChars_iff {raw : List Char} :
    (∃ c, parseChars raw = .ok c) ↔
      raw ≠ [] ∧ ∃ parts, bodySegments (body raw) = .ok parts ∧
        ∀ part ∈ parts, ∃ s, parseSegment part = .ok s := by
  simp only [parseChars_eq_ok_iff, cutAlternative_fst]
  constructor
  · rintro ⟨c, hne, parts, root, rest, cut, read, -⟩
    exact ⟨hne, parts, cut, exists_mapM_eq_ok_iff.1 ⟨_, read⟩⟩
  · rintro ⟨hne, parts, cut, each⟩
    obtain ⟨segments, read⟩ := exists_mapM_eq_ok_iff.2 each
    obtain ⟨first, others, rfl, -, -⟩ := cutSegments_parts (cutSegments_of_bodySegments cut)
    obtain ⟨root, rest, -, -, rfl⟩ := List.forall₂_cons_left_iff.1 (mapM_eq_ok_iff.1 read)
    exact ⟨_, hne, _, root, rest, cut, read, rfl⟩

end Chain

end TextTags
