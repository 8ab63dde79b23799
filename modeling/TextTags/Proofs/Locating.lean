import Mathlib.Order.Bounds.Basic
import TextTags.Proofs.Parsed
import TextTags.Proofs.Text.Marks
import TextTags.Proofs.Text.Pieces

/-!
# The search for the next tag

The next tag from a place on begins at the first opening bracket there that opens anything, and ends
at the first byte up to which as many brackets have been closed as opened. If that byte is missing
there is no tag, whatever stands behind the bracket. Places are counted in bytes.
-/

namespace TextTags.Tag

open Text

variable {text : String}

/-- Bytes can be dropped where they are those of whole characters. -/
theorem dropBytes?_eq_some_iff {n : Nat} {cs rest : List Char} :
    dropBytes? n cs = some rest ↔ ∃ passed, cs = passed ++ rest ∧ byteLength passed = n := by
  constructor
  · intro dropped
    fun_induction dropBytes? n cs with
    | case1 cs =>
      obtain rfl := Option.some.inj dropped
      exact ⟨[], rfl, rfl⟩
    | case2 => contradiction
    | case3 n c cs fits ih =>
      obtain ⟨passed, rfl, size⟩ := ih dropped
      exact ⟨c :: passed, rfl, by rw [byteLength]; omega⟩
    | case4 => contradiction
  · rintro ⟨passed, rfl, rfl⟩
    induction passed with
    | nil => rw [List.nil_append, byteLength, dropBytes?]
    | cons c passed ih =>
      have hne : byteLength (c :: passed) = c.utf8Size - 1 + byteLength passed + 1 := by
        have := c.utf8Size_pos
        rw [byteLength]
        omega
      have left : c.utf8Size - 1 + byteLength passed + 1 - c.utf8Size = byteLength passed := by
        have := c.utf8Size_pos
        omega
      rw [hne, List.cons_append, dropBytes?, if_pos (by omega), left, ih]

/-- A place between characters is one up to which bytes can be dropped. -/
theorem isValid_iff {start : Nat} :
    String.Pos.Raw.IsValid text ⟨start⟩ ↔ ∃ rest, dropBytes? start text.toList = some rest := by
  rw [String.Pos.Raw.isValid_iff_exists_append]
  constructor
  · rintro ⟨passed, rest, rfl, size⟩
    refine ⟨rest.toList, dropBytes?_eq_some_iff.2 ⟨passed.toList, String.toList_append, ?_⟩⟩
    rw [← utf8ByteSize_eq_byteLength]
    exact (congrArg String.Pos.Raw.byteIdx size).symm
  · rintro ⟨rest, dropped⟩
    obtain ⟨passed, eq, rfl⟩ := dropBytes?_eq_some_iff.1 dropped
    refine ⟨.ofList passed, .ofList rest, ?_, ?_⟩
    · rw [← String.ofList_append, ← eq, String.ofList_toList]
    · rw [String.Pos.Raw.ext_iff, String.byteIdx_rawEndPos, utf8ByteSize_eq_byteLength,
        String.toList_ofList]

/-! ## The bracket that opens the tag -/

/-- Whether a tag can begin at a byte: it is an opening bracket, and no dash is next to it. -/
def OpensAt (text : String) (place : Nat) : Prop :=
  (bytes text)[place]? = some '<'.toUInt8 ∧ (bytes text)[place + 1]? ≠ some '-'.toUInt8

private theorem opensAt_iff {place : Nat} :
    OpensAt text place ↔ ∃ before tail, text.toList = before ++ '<' :: tail ∧
      byteLength before = place ∧ tail.head? ≠ some '-' := by
  rw [OpensAt, bytes_eq_utf8]
  constructor
  · rintro ⟨bracket, undashed⟩
    obtain ⟨before, tail, eq, rfl⟩ := exists_of_getElem?_utf8 (by decide) bracket
    refine ⟨before, tail, eq, rfl, fun dash ↦ undashed ?_⟩
    obtain ⟨tail, rfl⟩ := List.head?_eq_some_iff.1 dash
    have next := getElem?_utf8_mark (m := '-') (by decide) (before ++ ['<']) tail
    rwa [byteLength_append, List.append_assoc, List.singleton_append, ← eq] at next
  · rintro ⟨before, tail, eq, rfl, undashed⟩
    refine ⟨by rw [eq]; exact getElem?_utf8_mark (by decide) before tail, fun dash ↦ undashed ?_⟩
    obtain ⟨before', tail', eq', size⟩ := exists_of_getElem?_utf8 (by decide) dash
    -- Both beginnings end right behind the bracket.
    have same : before ++ ['<'] ++ tail = before' ++ '-' :: tail' := by
      rw [← eq', eq, List.append_assoc, List.singleton_append]
    have sizes : byteLength (before ++ ['<']) = byteLength before + 1 := byteLength_append _ _
    obtain ⟨between, rfl, rfl⟩ := exists_append_of_byteLength_le same (by omega)
    cases between with
    | nil => rfl
    | cons c between =>
      have := c.utf8Size_pos
      rw [byteLength_append, byteLength] at size
      omega

private theorem dashed_of_not_mem {cs : List Char} (h : '<' ∉ cs) : dashed cs := by
  induction cs with
  | nil => rfl
  | cons c rest ih =>
    rw [List.mem_cons, not_or] at h
    rw [dashed, ih h.2, Bool.and_true, Bool.or_eq_true, bne_iff_ne]
    exact .inl (Ne.symm h.1)

/-- Behind every opening bracket of a dashed text stands a dash. -/
theorem head?_of_dashed {before after : List Char} (h : dashed (before ++ '<' :: after)) :
    after.head? = some '-' := by
  have rest := dashed_of_append h
  rw [dashed, Bool.and_eq_true] at rest
  simpa using rest.1

/-- No tag begins in a stretch whose brackets all have dashes behind them. -/
theorem not_opensAt {passed before rest : List Char} {place : Nat}
    (eq : text.toList = passed ++ (before ++ rest)) (plain : dashed before)
    (start : byteLength passed ≤ place) (stop : place < byteLength passed + byteLength before) :
    ¬ OpensAt text place := by
  rintro opens
  obtain ⟨front, tail, eq', rfl, undashed⟩ := opensAt_iff.1 opens
  obtain ⟨inner, rfl, same⟩ := exists_append_of_byteLength_le (eq.symm.trans eq') start
  rw [byteLength_append] at stop
  obtain ⟨between, rfl, tail_eq⟩ := exists_append_of_byteLength_le same.symm (by omega)
  -- The bracket itself is still in the stretch, so that the dash behind it is in it or follows.
  cases between with
  | nil =>
    rw [List.append_nil] at stop
    omega
  | cons c between =>
    obtain ⟨rfl, rfl⟩ := List.cons.inj tail_eq
    have dash := head?_of_dashed plain
    refine undashed ?_
    cases between with
    | nil => contradiction
    | cons => exact dash

private theorem isLeast_opensAt {passed before tail : List Char}
    (eq : text.toList = passed ++ (before ++ '<' :: tail)) (plain : dashed before)
    (undashed : tail.head? ≠ some '-') :
    IsLeast {place | byteLength passed ≤ place ∧ OpensAt text place}
      (byteLength passed + byteLength before) := by
  refine ⟨⟨Nat.le_add_right _ _, opensAt_iff.2 ⟨passed ++ before, tail, ?_, ?_, undashed⟩⟩, ?_⟩
  · rw [eq, List.append_assoc]
  · exact byteLength_append passed before
  · rintro place ⟨start, opens⟩
    by_contra stop
    exact not_opensAt eq plain start (Nat.lt_of_not_le stop) opens

/-! ## The bracket that closes it -/

/-- Whether the bytes from one place to another, both with them, have as many opening brackets as
closing ones. -/
def EvenFrom (text : String) (opening closing : Nat) : Prop :=
  closing < (bytes text).length ∧
    ((bytes text).extract opening (closing + 1)).count '<'.toUInt8 =
      ((bytes text).extract opening (closing + 1)).count '>'.toUInt8

private theorem evenFrom_iff {front tail : List Char} (eq : text.toList = front ++ '<' :: tail)
    (n : Nat) :
    EvenFrom text (byteLength front) (byteLength front + n) ↔ n ≤ byteLength tail ∧
      ((utf8 tail).take n).count '<'.toUInt8 + 1 = ((utf8 tail).take n).count '>'.toUInt8 := by
  have stretch : (bytes text).extract (byteLength front) (byteLength front + n + 1) =
      '<'.toUInt8 :: (utf8 tail).take n := by
    rw [bytes_eq_utf8, eq, utf8_append, List.extract_eq_take_drop, List.drop_left' (length_utf8 _),
      utf8_cons, utf8EncodeChar_mark (by decide), List.singleton_append,
      show byteLength front + n + 1 - byteLength front = n + 1 by omega, List.take_succ_cons]
  have size : (bytes text).length = byteLength front + (byteLength tail + 1) := by
    rw [bytes_eq_utf8, eq, length_utf8, byteLength_append, byteLength,
      Nat.add_comm (byteLength tail)]
    rfl
  rw [EvenFrom, stretch, size, List.count_cons_self, List.count_cons_of_ne (by decide)]
  exact and_congr_left fun _ ↦ by omega

/-- Where no bracket is closed that was not opened after the first one, that one is still open. -/
theorem not_evenFrom {front inside rest : List Char} {left n : Nat}
    (eq : text.toList = front ++ '<' :: (inside ++ rest))
    (kept : depthAfter '<' '>' 0 inside = some left) (stop : n ≤ byteLength inside) :
    ¬ EvenFrom text (byteLength front) (byteLength front + n) := by
  rw [evenFrom_iff eq, utf8_append, List.take_append_of_le_length (by rwa [length_utf8])]
  rintro ⟨-, even⟩
  obtain ⟨before, pre, counts⟩ := exists_prefix_of_utf8 (List.take_prefix n (utf8 inside))
  rw [counts '<' (by decide), counts '>' (by decide)] at even
  have open_ := count_le_of_depthAfter (by decide) kept pre
  omega

private theorem isLeast_evenFrom {front inside after : List Char}
    (eq : text.toList = front ++ '<' :: (inside ++ '>' :: after))
    (balanced : Balanced '<' '>' inside) :
    IsLeast {place | byteLength front < place ∧ EvenFrom text (byteLength front) place}
      (byteLength front + (1 + byteLength inside)) := by
  refine ⟨⟨by omega, ?_⟩, ?_⟩
  · have stretch : (utf8 (inside ++ '>' :: after)).take (1 + byteLength inside) =
        utf8 (inside ++ ['>']) := by
      rw [← List.singleton_append, ← List.append_assoc, utf8_append (inside ++ ['>'])]
      refine List.take_left' ?_
      rw [length_utf8, byteLength_append, Nat.add_comm]
      rfl
    have size : byteLength (inside ++ '>' :: after) =
        byteLength inside + (1 + byteLength after) := byteLength_append _ _
    have whole := count_of_depthAfter (by decide) balanced
    rw [evenFrom_iff eq, stretch, count_utf8 (by decide), count_utf8 (by decide), List.count_append,
      List.count_append, size]
    refine ⟨by omega, ?_⟩
    simpa using whole.symm
  · rintro place ⟨start, even⟩
    by_contra stop
    obtain ⟨n, rfl⟩ := Nat.exists_eq_add_of_lt start
    exact not_evenFrom eq balanced (by omega) (n := n + 1) even

/-! ## The tag found -/

private theorem locate?_of_dropBytes {start : Nat} {rest : List Char}
    (dropped : dropBytes? start text.toList = some rest) :
    locate? text start = (find? rest).map fun (before, inside, _) ↦
      (start + byteLength before, start + byteLength before + 1 + byteLength inside) := by
  rw [locate?, dropped, Option.bind_eq_bind, Option.bind_some]
  cases find? rest <;> rfl

private theorem locate?_of_invalid {start : Nat} (invalid : ¬ String.Pos.Raw.IsValid text ⟨start⟩) :
    dropBytes? start text.toList = none ∧ locate? text start = none := by
  have hno : dropBytes? start text.toList = none :=
    Option.eq_none_iff_forall_ne_some.2 fun rest dropped ↦ invalid (isValid_iff.2 ⟨rest, dropped⟩)
  exact ⟨hno, by rw [locate?, hno]; rfl⟩

/-- The brackets of the next tag are the first that opens one and the first that evens it out. -/
theorem locate?_eq_some_iff {start : Nat} (valid : String.Pos.Raw.IsValid text ⟨start⟩)
    (o c : Nat) : locate? text start = some (o, c) ↔
      IsLeast {place | start ≤ place ∧ OpensAt text place} o ∧
        IsLeast {place | o < place ∧ EvenFrom text o place} c := by
  obtain ⟨rest, dropped⟩ := isValid_iff.1 valid
  rw [locate?_of_dropBytes dropped]
  obtain ⟨passed, eq, rfl⟩ := dropBytes?_eq_some_iff.1 dropped
  -- No bracket opens a tag, or the first one that does is known. Then the brackets never come even,
  -- or the first place where they do is.
  rcases dashed_or_opens rest with plain | ⟨before, tail, rfl, plain, undashed⟩
  · rw [find?_of_dashed plain]
    refine ⟨nofun, fun ⟨⟨⟨start, opens⟩, _⟩, _⟩ ↦ ?_⟩
    have within : o < byteLength passed + byteLength rest := by
      have := (List.getElem?_eq_some_iff.1 opens.1).1
      rwa [bytes_eq_utf8, length_utf8, eq, byteLength_append] at this
    rw [← List.append_nil rest] at eq
    exact absurd opens (not_opensAt eq plain start within)
  · have first := isLeast_opensAt eq plain undashed
    have split : text.toList = (passed ++ before) ++ '<' :: tail := by rw [eq, List.append_assoc]
    rw [find?_of_opens plain undashed]
    rcases depthAfter_cases '<' '>' 0 tail with ⟨left, kept⟩ | ⟨inside, after, rfl, balanced⟩
    · rw [search_of_depthAfter kept]
      refine ⟨nofun, fun ⟨least, ⟨start, even⟩, _⟩ ↦ ?_⟩
      obtain rfl := first.unique least
      obtain ⟨n, rfl⟩ := Nat.exists_eq_add_of_le (Nat.le_of_lt start)
      rw [← byteLength_append] at even
      have within := ((evenFrom_iff split n).1 even).1
      rw [← List.append_nil tail] at split
      exact absurd even (not_evenFrom split kept within)
    · rw [search_of_closing (by decide) balanced]
      have last := isLeast_evenFrom split balanced
      rw [byteLength_append] at last
      constructor
      · intro found
        obtain ⟨rfl, rfl⟩ := Prod.mk.inj (Option.some.inj found)
        rw [Nat.add_assoc _ 1]
        exact ⟨first, last⟩
      · rintro ⟨least, least'⟩
        obtain rfl := first.unique least
        obtain rfl := last.unique least'
        exact congrArg some (Prod.ext rfl (Nat.add_assoc _ 1 _))

/-- What a turn of the search comes to. -/
inductive Turn
  /-- The bracket opens nothing, and the search goes on behind it. -/
  | again (place : Nat)
  | over (found : Option (Nat × Nat))
  /-- A bracket is closed with none open. -/
  | stray
deriving DecidableEq

/-- A turn of the search: the next opening bracket, and the one that closes it if a tag begins
there. -/
def turn (text : String) (place : Nat) : Turn :=
  match (dropBytes? place text.toList).bind (splitOnce '<') with
  | none => .over none
  | some (before, tail) =>
    let opening := place + byteLength before
    if tail.head? = some '-' then .again (opening + 1)
    else match search '<' '>' 1 tail with
      | .stray => .stray
      | .unclosed => .over none
      | .closed inside _ => .over (some (opening, opening + 1 + byteLength inside))

/-- At most so many turns of the search. -/
def turns (text : String) : Nat → Nat → Turn
  | 0, place => .again place
  | n + 1, place =>
    match turn text place with
    | .again next => turns text n next
    | .over found => .over found
    | .stray => .stray

/-- A turn finds the tag, or leaves less text to find the same tag in. -/
theorem turn_cases {place : Nat} {rest : List Char}
    (dropped : dropBytes? place text.toList = some rest) :
    turn text place = .over (locate? text place) ∨
      ∃ next rest', turn text place = .again next ∧ dropBytes? next text.toList = some rest' ∧
        rest'.length < rest.length ∧ locate? text next = locate? text place := by
  rw [turn, dropped, Option.bind_some]
  by_cases bracket : '<' ∈ rest
  · obtain ⟨before, tail, rfl, absent⟩ := List.eq_append_cons_of_mem bracket
    have plain := dashed_of_not_mem absent
    simp only [splitOnce_append absent]
    -- Behind a bracket with a dash the search is made again, and finds the same tag, as no other
    -- bracket comes before.
    by_cases dash : tail.head? = some '-'
    · right
      have behind : dropBytes? (place + byteLength before + 1) text.toList = some tail := by
        obtain ⟨passed, eq, rfl⟩ := dropBytes?_eq_some_iff.1 dropped
        refine dropBytes?_eq_some_iff.2 ⟨passed ++ (before ++ ['<']), ?_, ?_⟩
        · rw [eq, List.append_assoc, List.append_assoc, List.singleton_append]
        · rw [byteLength_append, byteLength_append, ← Nat.add_assoc]
          rfl
      refine ⟨_, tail, by rw [if_pos dash], behind, ?_, ?_⟩
      · rw [List.length_append, List.length_cons]
        omega
      · rw [locate?_of_dropBytes dropped, locate?_of_dropBytes behind, find?_append_of_dashed plain,
          find?, if_neg fun opens ↦ opens.2 dash]
        cases find? tail with
        | none => rfl
        | some parts =>
          obtain ⟨b, i, a⟩ := parts
          simp only [Option.map_some, byteLength_append, byteLength,
            show '<'.utf8Size = 1 from rfl, Nat.add_assoc]
    · left
      rw [if_neg dash, locate?_of_dropBytes dropped, find?_of_opens plain dash]
      cases ends : search '<' '>' 1 tail with
      | stray => exact absurd ends (search_ne_stray (by decide) 0 tail)
      | unclosed => rfl
      | closed inside after => rfl
  · left
    rw [splitOnce_eq_none bracket, locate?_of_dropBytes dropped,
      find?_of_dashed (dashed_of_not_mem bracket)]
    rfl

/-- The search ends with the tag after no more turns than there are characters left. -/
theorem turns_eq_over {n place : Nat} {rest : List Char}
    (dropped : dropBytes? place text.toList = some rest) (enough : rest.length < n) :
    turns text n place = .over (locate? text place) := by
  induction n generalizing place rest with
  | zero => contradiction
  | succ n ih =>
    rw [turns]
    rcases turn_cases dropped with found | ⟨next, rest', goes, dropped', shorter, same⟩
    · rw [found]
    · rw [goes, ← same]
      exact ih dropped' (by omega)

/-- The tag found from a place on is the next one. It begins at the first bracket that opens one and
ends at the first byte that evens it out; without either there is no tag, nor is there from a place
that is not between characters. The search comes to its end, and not by a bracket closed with none
open. -/
theorem locate?_next (text : String) (start : Nat) :
    (¬ String.Pos.Raw.IsValid text ⟨start⟩ → locate? text start = none) ∧
    (String.Pos.Raw.IsValid text ⟨start⟩ → ∀ o c, locate? text start = some (o, c) ↔
      IsLeast {place | start ≤ place ∧ OpensAt text place} o ∧
        IsLeast {place | o < place ∧ EvenFrom text o place} c) ∧
    ∀ n, text.length < n → turns text n start = .over (locate? text start) := by
  refine ⟨fun invalid ↦ (locate?_of_invalid invalid).2, locate?_eq_some_iff, fun n enough ↦ ?_⟩
  by_cases valid : String.Pos.Raw.IsValid text ⟨start⟩
  · obtain ⟨rest, dropped⟩ := isValid_iff.1 valid
    refine turns_eq_over dropped ?_
    obtain ⟨passed, eq, -⟩ := dropBytes?_eq_some_iff.1 dropped
    rw [← String.length_toList, eq, List.length_append] at enough
    omega
  · obtain ⟨hno, hno'⟩ := locate?_of_invalid valid
    obtain ⟨n, rfl⟩ := Nat.exists_eq_succ_of_ne_zero (Nat.ne_zero_of_lt enough)
    rw [turns, turn, hno, hno']
    rfl

/-- An arrow is passed over, a bracket within the tag raises the depth, and what is never closed
hides the tag behind it. -/
theorem locate?_next_nested :
    locate? "é <-b <c<d>>" 1 = none ∧
    (IsLeast {place | 2 ≤ place ∧ OpensAt "é <-b <c<d>>" place} 7 ∧
      IsLeast {place | 7 < place ∧ EvenFrom "é <-b <c<d>>" 7 place} 12) ∧
    turns "é <-b <c<d>>" 13 2 = .over (some (7, 12)) ∧
    ∀ o c, ¬ (IsLeast {place | 0 ≤ place ∧ OpensAt "<a <b>" place} o ∧
      IsLeast {place | o < place ∧ EvenFrom "<a <b>" o place} c) := by
  have found : locate? "é <-b <c<d>>" 2 = some (7, 12) := by
    have dropped : dropBytes? 2 "é <-b <c<d>>".toList = some " <-b <c<d>>".toList :=
      dropBytes?_eq_some_iff.2 ⟨['é'], by decide, by decide⟩
    rw [locate?_of_dropBytes dropped]
    decide
  have hidden : locate? "<a <b>" 0 = none := by
    have dropped : dropBytes? 0 "<a <b>".toList = some "<a <b>".toList :=
      dropBytes?_eq_some_iff.2 ⟨[], rfl, rfl⟩
    rw [locate?_of_dropBytes dropped]
    decide
  refine ⟨(locate?_next _ 1).1 (by decide), ((locate?_next _ 2).2.1 (by decide) 7 12).1 found,
    found ▸ (locate?_next _ 2).2.2 13 (by decide), fun o c both ↦ ?_⟩
  have hne := ((locate?_next _ 0).2.1 (by decide) o c).2 both
  rw [hidden] at hne
  contradiction

end TextTags.Tag
