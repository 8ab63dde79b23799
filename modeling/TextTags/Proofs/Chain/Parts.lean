import Mathlib.Data.List.Forall2
import TextTags.Proofs.Parsed

/-!
# Texts nested in a text

The parameters and the alternative of a chain are stretches of the tag that it was read from, and so
of the text that the tag stands in, where they are shorter by its brackets at least.
-/

namespace TextTags

open Text

namespace Chain

/-- The parameters of a chain's segments, in order. -/
def params (c : Chain) : List String := c.segments.filterMap (·.param)

/-- The texts that resolving and replacing a chain may fill: its parameters and its alternative. -/
def nested (c : Chain) : List String := c.params ++ c.alternative.toList

private theorem cutAlternative_before (square angle : Int) (cs : List Char) :
    (cutAlternative square angle cs).1 <+: cs := by
  fun_induction cutAlternative square angle cs with
  | case1 => exact List.prefix_rfl
  | case2 => exact List.nil_prefix
  | case3 _ _ c rest _ square angle before after cut ih =>
    rw [cut] at ih
    exact List.cons_prefix_cons.2 ⟨rfl, ih⟩

private theorem cutAlternative_after {square angle : Int} {cs after : List Char}
    (h : (cutAlternative square angle cs).2 = some after) : after <:+ cs := by
  fun_induction cutAlternative square angle cs with
  | case1 => contradiction
  | case2 square angle c rest _ =>
    obtain rfl := Option.some.inj h
    exact (List.tail_suffix rest).trans (List.suffix_cons c rest)
  | case3 _ _ c rest _ square angle before after' cut ih =>
    rw [cut] at ih
    exact (ih h).trans (List.suffix_cons c rest)

/-- What is mapped to a success was one. -/
theorem exists_of_map_eq_ok {ε α β : Type} {f : α → β} {x : Except ε α} {b : β}
    (h : x.map f = .ok b) : ∃ a, x = .ok a ∧ f a = b := by
  cases x with
  | error => contradiction
  | ok a => exact ⟨a, rfl, Except.ok.inj h⟩

/-- The first stretch begins where the text does. -/
theorem cutSegments_parts {square angle : Nat} {cs : List Char} {pieces : List (List Char)}
    (h : cutSegments square angle cs = .ok pieces) :
    ∃ first others, pieces = first :: others ∧ first <+: cs ∧ ∀ p ∈ others, p <:+: cs := by
  induction cs generalizing square angle pieces with
  | nil =>
    unfold cutSegments at h
    split at h
    · obtain rfl := Except.ok.inj h
      exact ⟨[], [], rfl, List.prefix_rfl, by simp⟩
    · contradiction
  | cons c rest ih =>
    have skip : rest <:+: c :: rest := (List.suffix_cons c rest).isInfix
    unfold cutSegments at h
    split at h
    · obtain ⟨pieces', cut, rfl⟩ := exists_of_map_eq_ok h
      obtain ⟨first, others, rfl, before, within⟩ := ih cut
      refine ⟨[], _, rfl, List.nil_prefix, List.forall_mem_cons.2 ⟨before.isInfix.trans skip, ?_⟩⟩
      exact fun p mem ↦ (within p mem).trans skip
    · split at h
      · contradiction
      · obtain ⟨pieces', cut, rfl⟩ := exists_of_map_eq_ok h
        obtain ⟨first, others, rfl, before, within⟩ := ih cut
        refine ⟨c :: first, others, rfl, List.cons_prefix_cons.2 ⟨rfl, before⟩, fun p mem ↦ ?_⟩
        exact (within p mem).trans skip

private theorem cutGroup_inside {depth : Nat} {cs inside after : List Char}
    (h : cutGroup depth cs = some (inside, after)) : inside <+: cs := by
  induction cs generalizing depth inside after with
  | nil => contradiction
  | cons c rest ih =>
    unfold cutGroup at h
    split at h
    · obtain ⟨rfl, -⟩ := Prod.mk.inj (Option.some.inj h)
      exact List.nil_prefix
    · obtain ⟨⟨inner, others⟩, cut, eq⟩ := Option.map_eq_some_iff.1 h
      obtain ⟨rfl, -⟩ := Prod.mk.inj eq
      exact List.cons_prefix_cons.2 ⟨rfl, ih cut⟩

private theorem param_of_parseSegment {part : List Char} {s : Segment} {param : String}
    (h : parseSegment part = .ok s) (found : s.param = some param) : param.toList <:+: part := by
  unfold parseSegment at h
  split at h
  · obtain rfl := Except.ok.inj h
    contradiction
  · next name inner cut =>
    split at h
    · contradiction
    · next group =>
      obtain rfl := Except.ok.inj h
      obtain rfl := Option.some.inj found
      rw [String.toList_ofList, eq_append_of_splitOnce cut]
      refine (cutGroup_inside group).isInfix.trans ?_
      exact ((List.suffix_cons '[' inner).trans (List.suffix_append name _)).isInfix
    · contradiction

/-- Reading a list is reading its members one by one. -/
theorem mapM_eq_ok_iff {ε α β : Type} {f : α → Except ε β} {as : List α} {bs : List β} :
    as.mapM f = .ok bs ↔ List.Forall₂ (fun a b ↦ f a = .ok b) as bs := by
  induction as generalizing bs with
  | nil =>
    rw [List.mapM_nil, List.forall₂_nil_left_iff]
    constructor
    · exact fun eq ↦ (Except.ok.inj eq).symm
    · rintro rfl
      rfl
  | cons a as ih =>
    rw [List.mapM_cons, List.forall₂_cons_left_iff]
    constructor
    · intro eq
      cases first : f a with
      | error e => rw [first] at eq; contradiction
      | ok b =>
        rw [first] at eq
        cases others : as.mapM f with
        | error e => rw [others] at eq; contradiction
        | ok bs' =>
          rw [others] at eq
          exact ⟨b, bs', rfl, ih.1 others, (Except.ok.inj eq).symm⟩
    · rintro ⟨b, bs', first, others, rfl⟩
      rw [first, ih.2 others]
      rfl

/-- Each segment comes from one of the parts. -/
theorem exists_of_mapM_parseSegment {parts : List (List Char)} {segments : List Segment}
    (h : parts.mapM parseSegment = .ok segments) :
    ∀ s ∈ segments, ∃ part ∈ parts, parseSegment part = .ok s := by
  intro s mem
  obtain ⟨i, bound, rfl⟩ := List.mem_iff_getElem.1 mem
  have each := mapM_eq_ok_iff.1 h
  have bound' : i < parts.length := each.length_eq ▸ bound
  exact ⟨parts[i], List.getElem_mem bound', each.get bound' bound⟩

/-- A fallback leaves all else of a segment as it is. -/
theorem map_withFallback {α : Type} {g : Segment → α}
    (keeps : ∀ s fallback, g { s with fallback } = g s) (fallback : Option String) (root : Segment)
    (rest : List Segment) :
    ((withFallback fallback root rest).1 :: (withFallback fallback root rest).2).map g =
      (root :: rest).map g := by
  induction rest generalizing root with
  | nil => exact congrArg ([·]) (keeps root fallback)
  | cons s rest ih =>
    have others := ih s
    simp only [withFallback, List.map_cons] at others ⊢
    rw [others]

/-- The fallback of a chain is put on its last segment. -/
theorem fallback_withFallback (fallback : Option String) (root : Segment) (rest : List Segment) :
    ((withFallback fallback root rest).2.getLastD (withFallback fallback root rest).1).fallback =
      fallback := by
  induction rest generalizing root with
  | nil => rfl
  | cons s rest ih =>
    have others := ih s
    simp only [withFallback, List.getLastD_cons]
    exact others

/-- The name of a root leaves all else of a segment as it is. -/
theorem apply_rootSegment {α : Type} {g : Segment → α} (keeps : ∀ s key, g { s with key } = g s)
    (s : Segment) : g (rootSegment s) = g s := by
  unfold rootSegment
  split
  · exact keeps s unnamedRootKey
  · rfl

/-- The root keeps its parameter. -/
theorem param_rootSegment (s : Segment) : (rootSegment s).param = s.param :=
  apply_rootSegment (fun _ _ ↦ rfl) s

/-- The root keeps its fallback. -/
theorem fallback_rootSegment (s : Segment) : (rootSegment s).fallback = s.fallback :=
  apply_rootSegment (fun _ _ ↦ rfl) s

/-- A body has its parts where the brackets match and no part is empty. -/
theorem bodySegments_eq_ok_iff {body : List Char} {parts : List (List Char)} :
    bodySegments body = .ok parts ↔ cutSegments 0 0 body = .ok parts ∧ [] ∉ parts := by
  unfold bodySegments
  cases cutSegments 0 0 body with
  | error imbalance => cases imbalance <;> simp
  | ok pieces =>
    have any : pieces.any List.isEmpty = true ↔ [] ∈ pieces := by
      simp [List.any_eq_true]
    dsimp only
    by_cases empty : [] ∈ pieces
    · rw [if_pos (any.2 empty)]
      constructor
      · exact nofun
      · rintro ⟨eq, hne⟩
        obtain rfl := Except.ok.inj eq
        exact absurd empty hne
    · rw [if_neg (mt any.1 empty)]
      constructor
      · intro eq
        obtain rfl := Except.ok.inj eq
        exact ⟨rfl, empty⟩
      · rintro ⟨eq, -⟩
        rw [Except.ok.inj eq]

/-- The parts of a body are those that it is cut into. -/
theorem cutSegments_of_bodySegments {body : List Char} {parts : List (List Char)}
    (h : bodySegments body = .ok parts) : cutSegments 0 0 body = .ok parts :=
  (bodySegments_eq_ok_iff.1 h).1

/-- A text reads as a chain whose segments are read from the parts of its body, with the alternative
on the last. -/
theorem parseChars_eq_ok_iff {raw : List Char} {c : Chain} :
    parseChars raw = .ok c ↔
      raw ≠ [] ∧ ∃ parts root rest, bodySegments (cutAlternative 0 0 raw).1 = .ok parts ∧
        parts.mapM parseSegment = .ok (root :: rest) ∧
        c = ⟨.ofList raw,
          (withFallback ((cutAlternative 0 0 raw).2.map .ofList) (rootSegment root) rest).1,
          (withFallback ((cutAlternative 0 0 raw).2.map .ofList) (rootSegment root) rest).2⟩ := by
  unfold parseChars
  dsimp only
  by_cases empty : raw = []
  · simp [empty]
  · rw [if_neg (mt List.isEmpty_iff.1 empty)]
    cases bodySegments (cutAlternative 0 0 raw).1 with
    | error => simp
    | ok parts =>
      dsimp only
      cases parsed : parts.mapM parseSegment with
      | error => simp [parsed]
      | ok segments =>
        cases segments with
        | nil => simp [parsed]
        | cons root rest => simp [empty, parsed, eq_comm]

/-- A text that reads as a chain: its body, cut into segments that are read one by one, with the
alternative on the last. -/
theorem read_of_parseChars {raw : List Char} {c : Chain} (h : parseChars raw = .ok c) :
    ∃ parts root rest, cutSegments 0 0 (cutAlternative 0 0 raw).1 = .ok parts ∧
      parts.mapM parseSegment = .ok (root :: rest) ∧
      (c.root, c.rest) =
        withFallback ((cutAlternative 0 0 raw).2.map .ofList) (rootSegment root) rest := by
  obtain ⟨-, parts, root, rest, cut, parsed, rfl⟩ := parseChars_eq_ok_iff.1 h
  exact ⟨parts, root, rest, cutSegments_of_bodySegments cut, parsed, rfl⟩

/-- The parameters are those of the segments, and the alternative is what was cut off. -/
theorem cut_of_parseChars {raw : List Char} {c : Chain} (h : parseChars raw = .ok c) :
    ∃ parts segments, cutSegments 0 0 (cutAlternative 0 0 raw).1 = .ok parts ∧
      parts.mapM parseSegment = .ok segments ∧
      c.segments.map (·.param) = segments.map (·.param) ∧
      c.alternative = (cutAlternative 0 0 raw).2.map .ofList := by
  obtain ⟨parts, root, rest, cut, parsed, read⟩ := read_of_parseChars h
  obtain ⟨first, others⟩ := Prod.mk.inj read
  refine ⟨parts, root :: rest, cut, parsed, ?_, ?_⟩
  · rw [Chain.segments, first, others, map_withFallback fun _ _ ↦ rfl]
    rw [List.map_cons, List.map_cons, param_rootSegment]
  · rw [Chain.alternative, Chain.last, first, others]
    exact fallback_withFallback _ _ rest

private theorem params_of_parseChars {raw : List Char} {c : Chain} (h : parseChars raw = .ok c)
    {param : String} (mem : param ∈ c.params) : param.toList <:+: raw := by
  obtain ⟨parts, segments, cut, parsed, same, -⟩ := cut_of_parseChars h
  obtain ⟨s, mem, found⟩ : ∃ s ∈ segments, s.param = some param := by
    obtain ⟨s, mem, found⟩ := List.mem_filterMap.1 mem
    exact List.mem_map.1 (same ▸ List.mem_map.2 ⟨s, mem, found⟩)
  obtain ⟨part, mem, read⟩ := exists_of_mapM_parseSegment parsed s mem
  obtain ⟨first, others, rfl, before, within⟩ := cutSegments_parts cut
  have inBody : part <:+: (cutAlternative 0 0 raw).1 := by
    rcases List.mem_cons.1 mem with rfl | mem
    · exact before.isInfix
    · exact within part mem
  exact (param_of_parseSegment read found).trans
    (inBody.trans (cutAlternative_before 0 0 raw).isInfix)

private theorem alternative_of_parseChars {raw : List Char} {c : Chain} (h : parseChars raw = .ok c)
    {text : String} (given : c.alternative = some text) : text.toList <:+: raw := by
  obtain ⟨-, -, -, -, -, alternative⟩ := cut_of_parseChars h
  obtain ⟨after, cut, rfl⟩ := Option.map_eq_some_iff.1 (alternative.symm.trans given)
  rw [String.toList_ofList]
  exact (cutAlternative_after cut).isInfix

/-- The texts nested in a chain are stretches of what it was read from. -/
theorem nested_of_parseChars {raw : List Char} {c : Chain} (h : parseChars raw = .ok c)
    {text : String} (mem : text ∈ c.nested) : text.toList <:+: raw := by
  rcases List.mem_append.1 mem with param | alternative
  · exact params_of_parseChars h param
  · exact alternative_of_parseChars h (Option.mem_toList.1 alternative)

end Chain

/-- The texts nested in the tags of a text. -/
def Parsed.nested (p : Parsed) : List String :=
  p.fragments.flatMap fun
    | .tag tag => tag.chain.nested
    | _ => []

/-- What is nested in a tag is nested in the text of the tag. -/
theorem Parsed.mem_nested {p : Parsed} {tag : Tag} (h : .tag tag ∈ p.fragments) {text : String}
    (mem : text ∈ tag.chain.nested) : text ∈ p.nested :=
  List.mem_flatMap.2 ⟨.tag tag, h, mem⟩

/-- The inside of a tag stands between brackets. -/
theorem Tag.bracketed_of_mem_insides {cs inside : List Char} (h : inside ∈ insides cs) :
    '<' :: inside ++ ['>'] <:+: cs := by
  fun_induction insides cs with
  | case1 => contradiction
  | case2 cs before first after found ih =>
    have split := eq_append_of_find found
    rcases List.mem_cons.1 h with rfl | mem
    · exact ⟨before, after, by simp [split]⟩
    · refine (ih mem).trans ⟨before ++ '<' :: first ++ ['>'], [], by simp [split]⟩

/-- The texts nested in a text are stretches of it, and shorter. -/
theorem Parsed.nested_ofText {text inner : String} (h : inner ∈ (ofText text).nested) :
    inner.toList <:+: text.toList ∧ inner.length < text.length := by
  obtain ⟨fragment, mem, nested⟩ := List.mem_flatMap.1 h
  cases fragment with
  | literal | issue => contradiction
  | tag tag =>
    obtain ⟨inside, parsed⟩ := parse_of_mem mem
    have within := Chain.nested_of_parseChars parsed nested
    have bracketed := Tag.bracketed_of_mem_insides inside
    have strip : tag.raw.toList <:+: '<' :: tag.raw.toList ++ ['>'] := ⟨['<'], ['>'], by simp⟩
    refine ⟨within.trans (strip.trans bracketed), ?_⟩
    have long := bracketed.length_le
    have short := within.length_le
    simp only [List.length_append, List.length_cons, List.length_nil] at long
    rw [← String.length_toList, ← String.length_toList]
    omega

end TextTags
