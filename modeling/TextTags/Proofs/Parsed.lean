import TextTags.Proofs.Fragment

/-!
# What a text is cut into

The fragments of a text are its stretches in order. Put together again they are the text; the tags
are the stretches in brackets that read as chains; and no literal holds a tag that was missed.
-/

namespace TextTags

open Text

namespace Tag

/-- What stands inside the tags of a text, in order, whether or not it reads as a chain. -/
def insides (cs : List Char) : List (List Char) :=
  match _ : find? cs with
  | none => []
  | some (_, inside, after) => inside :: insides after
termination_by cs.length
decreasing_by
  have := eq_append_of_find ‹find? cs = some (_, inside, after)›
  simp [this]
  omega

private theorem insides_of_none {cs : List Char} (h : find? cs = none) : insides cs = [] := by
  rw [insides]
  split
  · rfl
  · next found =>
    rw [h] at found
    contradiction

private theorem insides_of_some {cs before inside after : List Char}
    (h : find? cs = some (before, inside, after)) : insides cs = inside :: insides after := by
  rw [insides]
  split
  · next absent =>
    rw [h] at absent
    contradiction
  · next found =>
    rw [h] at found
    simp only [Option.some.injEq, Prod.mk.injEq] at found
    obtain ⟨rfl, rfl, rfl⟩ := found
    rfl

/-- Before the first tag, every opening bracket has a dash after it. -/
theorem dashed_of_find {cs before inside after : List Char}
    (h : find? cs = some (before, inside, after)) : dashed before := by
  rcases dashed_or_opens cs with plain | ⟨first, tail, rfl, plain, undashed⟩
  · rw [find?_of_dashed plain] at h
    contradiction
  · rw [find?_of_opens plain undashed] at h
    obtain ⟨_, -, eq⟩ := Option.map_eq_some_iff.1 h
    obtain ⟨rfl, -⟩ := Prod.mk.inj eq
    exact plain

end Tag

namespace Parsed

private theorem join_literal (cs : List Char) :
    (String.join ((literal cs).map Fragment.source)).toList = cs := by
  unfold literal
  split
  · next empty => simp [List.isEmpty_iff.1 empty]
  · simp [Fragment.source]

private theorem source_tagFragment (inside : List Char) :
    (tagFragment inside).source.toList = '<' :: inside ++ ['>'] := by
  unfold tagFragment
  split <;> simp [Fragment.source]

private theorem join_leftover (text rest : List Char) :
    (String.join ((leftover text rest).map Fragment.source)).toList = rest := by
  have after := join_literal rest
  unfold leftover
  rw [List.map_append, String.join_append, String.toList_append, after]
  split <;> simp [Fragment.source]

private theorem join_fragmentsOf (text rest : List Char) :
    (String.join ((fragmentsOf text rest).map Fragment.source)).toList = rest := by
  fun_induction Tag.insides rest with
  | case1 rest hno =>
    rw [fragmentsOf_none hno]
    exact join_leftover text rest
  | case2 rest before inside after hne ih =>
    rw [fragmentsOf_some hne, List.map_append, List.map_cons, String.join_append, String.join_cons,
      String.toList_append, String.toList_append, join_literal, source_tagFragment, ih,
      Tag.eq_append_of_find hne]
    simp

/-- The fragments of a text put together are the text. -/
theorem source_ofText (text : String) : (ofText text).source = text := by
  apply String.toList_injective
  rw [source, ofText]
  rcases ofChars_cases text.toList with eq | ⟨eq, -⟩
  · rw [eq]
    exact join_fragmentsOf _ _
  · rw [eq]
    simp [Fragment.source]

private theorem eq_of_mem_literal {cs : List Char} {fragment : Fragment}
    (h : fragment ∈ literal cs) :
    fragment = .literal (.ofList cs) := by
  unfold literal at h
  split at h
  · simp at h
  · exact List.mem_singleton.1 h

private theorem mem_leftover {text rest : List Char} {fragment : Fragment}
    (h : fragment ∈ leftover text rest) :
    fragment = .literal (.ofList rest) ∨ ∃ message, fragment = .issue message "" := by
  unfold leftover at h
  rcases List.mem_append.1 h with warning | rest
  · split at warning
    · exact .inr ⟨_, List.mem_singleton.1 warning⟩
    · simp at warning
  · exact .inl (eq_of_mem_literal rest)

/-- A fragment is a literal without a tag, the fragment of a tag's inside, or a warning. -/
theorem mem_fragmentsOf {text rest : List Char} {fragment : Fragment}
    (h : fragment ∈ fragmentsOf text rest) :
    (∃ cs, fragment = .literal (.ofList cs) ∧ Tag.find? cs = none) ∨
      (∃ inside ∈ Tag.insides rest, fragment = tagFragment inside) ∨
      ∃ message, fragment = .issue message "" := by
  fun_induction Tag.insides rest with
  | case1 rest hno =>
    rw [fragmentsOf_none hno] at h
    rcases mem_leftover h with eq | warning
    · exact .inl ⟨rest, eq, hno⟩
    · exact .inr (.inr warning)
  | case2 rest before inside after hne ih =>
    rw [fragmentsOf_some hne, List.mem_append, List.mem_cons] at h
    rcases h with before | tag | others
    · exact .inl ⟨_, eq_of_mem_literal before, Tag.find?_of_dashed (Tag.dashed_of_find hne)⟩
    · exact .inr (.inl ⟨inside, List.mem_cons_self, tag⟩)
    · rcases ih others with plain | ⟨inner, mem, eq⟩ | warning
      · exact .inl plain
      · exact .inr (.inl ⟨inner, List.mem_cons_of_mem _ mem, eq⟩)
      · exact .inr (.inr warning)

private theorem tagFragment_mem {text rest inside : List Char} (h : inside ∈ Tag.insides rest) :
    tagFragment inside ∈ fragmentsOf text rest := by
  fun_induction Tag.insides rest with
  | case1 => contradiction
  | case2 rest before first after hne ih =>
    rw [fragmentsOf_some hne]
    rcases List.mem_cons.1 h with rfl | others
    · simp
    · simp [ih others]

private theorem ofChars_of_find_none {cs : List Char} (h : Tag.find? cs = none) :
    ofChars cs = ⟨[.literal (.ofList cs)], false⟩ := by
  simp [ofChars, h]

/-- A literal of a text is cut into nothing but itself. -/
theorem mem_ofText {text : String} {fragment : Fragment} (h : fragment ∈ (ofText text).fragments) :
    (∃ s, fragment = .literal s ∧ ofText s = ⟨[.literal s], false⟩) ∨
      (∃ inside ∈ Tag.insides text.toList, fragment = tagFragment inside) ∨
      ∃ message, fragment = .issue message "" := by
  unfold ofText at h
  rcases ofChars_cases text.toList with eq | ⟨eq, -⟩
  · rw [eq] at h
    rcases mem_fragmentsOf h with ⟨cs, literal, hno⟩ | other
    · refine .inl ⟨_, literal, ?_⟩
      rw [ofText, String.toList_ofList]
      exact ofChars_of_find_none hno
    · exact .inr other
  · rw [eq, List.mem_singleton, String.ofList_toList] at h
    rw [String.ofList_toList] at eq
    exact .inl ⟨text, h, eq⟩

/-- What stands in one of the tags is a chain if and only if there is a fragment for it that is a
tag. -/
theorem anyChain_iff (text rest : List Char) :
    anyChain rest ↔ ∃ tag, .tag tag ∈ fragmentsOf text rest := by
  fun_induction Tag.insides rest with
  | case1 rest hno =>
    rw [anyChain_none hno, fragmentsOf_none hno]
    refine ⟨nofun, fun ⟨tag, mem⟩ ↦ ?_⟩
    rcases mem_leftover mem with eq | ⟨message, eq⟩ <;> contradiction
  | case2 rest before inside after hne ih =>
    have chain : (Chain.parseChars inside).isOk ↔ ∃ tag, tagFragment inside = .tag tag := by
      unfold tagFragment
      cases Chain.parseChars inside <;> simp [Except.isOk, Except.toBool]
    have plain (tag : Tag) : .tag tag ∉ literal before := fun mem ↦ by
      have := eq_of_mem_literal mem
      contradiction
    rw [anyChain_some hne, fragmentsOf_some hne, Bool.or_eq_true, ih, chain, ← exists_or]
    simp only [List.mem_append, List.mem_cons, plain, false_or, eq_comm]

/-- There is said to be a tag if and only if a fragment is one. -/
theorem hasTag_ofText (text : String) :
    (ofText text).hasTag ↔ ∃ tag, .tag tag ∈ (ofText text).fragments := by
  unfold ofText
  rcases ofChars_cases text.toList with eq | ⟨eq, -⟩
  · rw [eq]
    exact anyChain_iff _ _
  · rw [eq]
    simp

/-- A tag stands in the text, and its chain is what its inside reads as. -/
theorem parse_of_mem {text : String} {tag : Tag} (h : .tag tag ∈ (ofText text).fragments) :
    tag.raw.toList ∈ Tag.insides text.toList ∧ Chain.parse tag.raw = .ok tag.chain := by
  rcases mem_ofText h with ⟨s, eq, -⟩ | ⟨inside, found, eq⟩ | ⟨message, eq⟩
  · contradiction
  · unfold tagFragment at eq
    split at eq
    · next chain parsed =>
      obtain rfl := Fragment.tag.inj eq
      rw [Chain.parse, String.toList_ofList]
      exact ⟨found, parsed⟩
    · contradiction
  · contradiction

/-- A tag whose inside reads as a chain has a fragment. -/
theorem mem_of_parse {text : String} {inside : List Char} (h : inside ∈ Tag.insides text.toList)
    {chain : Chain} (parsed : Chain.parseChars inside = .ok chain) :
    .tag ⟨.ofList inside, chain⟩ ∈ (ofText text).fragments := by
  unfold ofText
  rcases ofChars_cases text.toList with eq | ⟨-, hno | empty⟩
  · rw [eq]
    have mem : tagFragment inside ∈ fragmentsOf text.toList text.toList := tagFragment_mem h
    rwa [tagFragment, parsed] at mem
  · rw [Tag.insides_of_none hno] at h
    contradiction
  · -- Of the two brackets alone the inside is empty, which is no chain.
    have found : Tag.find? ['<', '>'] = some ([], [], []) := rfl
    rw [empty, Tag.insides_of_some found, Tag.insides_of_none rfl, List.mem_singleton] at h
    rw [h] at parsed
    contradiction

/-- An issue that stands for text stands for a tag whose inside is no chain. -/
theorem rejected_of_mem {text message source : String}
    (h : .issue message source ∈ (ofText text).fragments) (hne : source ≠ "") :
    ∃ raw defect, source = "<" ++ raw ++ ">" ∧ Chain.parse raw = .error defect := by
  rcases mem_ofText h with ⟨s, eq, -⟩ | ⟨inside, -, eq⟩ | ⟨message, eq⟩
  · contradiction
  · unfold tagFragment at eq
    split at eq
    · contradiction
    · next defect rejected =>
      refine ⟨.ofList inside, defect, ?_, ?_⟩
      · apply String.toList_injective
        simp [(Fragment.issue.inj eq).2]
      · rwa [Chain.parse, String.toList_ofList]
  · exact absurd (Fragment.issue.inj eq).2 hne

private theorem ofText_of_mem_literal {text s : String} (h : .literal s ∈ (ofText text).fragments) :
    ofText s = ⟨[.literal s], false⟩ := by
  rcases mem_ofText h with ⟨s', eq, whole⟩ | ⟨inside, -, eq⟩ | ⟨message, eq⟩
  · rwa [Fragment.literal.inj eq]
  · unfold tagFragment at eq
    split at eq <;> contradiction
  · contradiction

/-- Cutting loses nothing, and every fragment is what it is called. A text is said to have a tag if
and only if one of its fragments is a tag; the chain of a tag is what its inside reads as, and every
tag of the text whose inside reads as a chain is there; an issue that stands for text stands for a
tag whose inside is no chain; and a literal is cut into nothing but itself. -/
theorem ofText_wellFormed (text : String) :
    (ofText text).source = text ∧
      ((ofText text).hasTag ↔ ∃ tag, .tag tag ∈ (ofText text).fragments) ∧
      (∀ tag, .tag tag ∈ (ofText text).fragments → Chain.parse tag.raw = .ok tag.chain) ∧
      (∀ inside ∈ Tag.insides text.toList, ∀ chain, Chain.parseChars inside = .ok chain →
        .tag ⟨.ofList inside, chain⟩ ∈ (ofText text).fragments) ∧
      (∀ message source, .issue message source ∈ (ofText text).fragments → source ≠ "" →
        ∃ raw defect, source = "<" ++ raw ++ ">" ∧ Chain.parse raw = .error defect) ∧
      ∀ s, .literal s ∈ (ofText text).fragments → ofText s = ⟨[.literal s], false⟩ :=
  ⟨source_ofText text, hasTag_ofText text, fun _ mem ↦ (parse_of_mem mem).2,
    fun _ mem _ parsed ↦ mem_of_parse mem parsed, fun _ _ mem hne ↦ rejected_of_mem mem hne,
    fun _ mem ↦ ofText_of_mem_literal mem⟩

/-- An arrow, a tag, a tag whose inside is no chain, and a bracket left over. -/
theorem ofText_wellFormed_mixed :
    let text := "1 <- <a.b> <c[d> <e"
    (ofText text).source = text ∧ (ofText text).hasTag ∧
      (∃ tag, .tag tag ∈ (ofText text).fragments ∧ Chain.parse tag.raw = .ok tag.chain) ∧
      (∃ message, .issue message "<c[d>" ∈ (ofText text).fragments) ∧
      (∃ raw defect, "<c[d>" = "<" ++ raw ++ ">" ∧ Chain.parse raw = .error defect) ∧
      .literal " <e" ∈ (ofText text).fragments ∧ ofText " <e" = ⟨[.literal " <e"], false⟩ := by
  intro text
  obtain ⟨whole, -, tags, -, issues, literals⟩ := ofText_wellFormed text
  have tag : .tag ⟨"a.b", ⟨"a.b", ⟨"a", "a", none, none⟩, [⟨"b", "b", none, none⟩]⟩⟩ ∈
      (ofText text).fragments := by decide +kernel
  have issue : .issue (defectMessage (.unclosed "c[d")) "<c[d>" ∈ (ofText text).fragments := by
    decide +kernel
  have literal : .literal " <e" ∈ (ofText text).fragments := by decide +kernel
  exact ⟨whole, by decide +kernel, ⟨_, tag, tags _ tag⟩, ⟨_, issue⟩, issues _ _ issue (by decide),
    literal, literals _ literal⟩

end Parsed

end TextTags
