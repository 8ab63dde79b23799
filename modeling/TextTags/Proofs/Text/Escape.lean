import TextTags.Escape

/-!
# Escaped text

Escaping leaves no separator in a text, and unescaping undoes it whatever text follows.
-/

namespace TextTags.Escape

/-- A name that is looked up is one of the table. -/
theorem mem_entities_of_lookup {c : Char} {name : List Char} (h : entities.lookup c = some name) :
    (c, name) ∈ entities := by
  obtain ⟨before, after, parts, -⟩ := List.lookup_eq_some_iff.1 h
  rw [parts]
  simp

/-- No name begins another one, so a name is found whatever follows it. -/
theorem entityAt?_name {c : Char} {name : List Char} (h : (c, name) ∈ entities)
    (rest : List Char) : entityAt? (name ++ rest) = some (c, name.length) := by
  simp only [entities, List.mem_cons, Prod.mk.injEq, List.not_mem_nil, or_false] at h
  rcases h with ⟨rfl, rfl⟩ | ⟨rfl, rfl⟩ | ⟨rfl, rfl⟩ | ⟨rfl, rfl⟩ | ⟨rfl, rfl⟩ | ⟨rfl, rfl⟩ |
    ⟨rfl, rfl⟩ | ⟨rfl, rfl⟩ <;> rfl

/-- One escaped character is read as this character. -/
theorem unescape_escapeChar (c : Char) (rest : List Char) :
    unescape (escapeChar c ++ rest) = c :: unescape rest := by
  unfold escapeChar
  split
  · next name found =>
    rw [List.cons_append, unescape, if_pos rfl, entityAt?_name (mem_entities_of_lookup found)]
    simp
  · next absent =>
    have plain : c ≠ '&' := by
      rintro rfl
      simp [entities] at absent
    rw [List.singleton_append, unescape, if_neg plain]

private theorem unescape_escape_append (cs rest : List Char) :
    unescape (escape cs ++ rest) = cs ++ unescape rest := by
  induction cs with
  | nil => rfl
  | cons c cs ih =>
    rw [escape, List.flatMap_cons, List.append_assoc, unescape_escapeChar, ← escape, ih,
      List.cons_append]

/-- Unescaping undoes escaping. -/
theorem unescape_escape (cs : List Char) : unescape (escape cs) = cs := by
  have := unescape_escape_append cs []
  simpa [unescape] using this

/-- An escaped text holds ampersands and characters that separate nothing. -/
theorem eq_amp_or_plain_of_mem_escape {c : Char} {cs : List Char} (h : c ∈ escape cs) :
    c = '&' ∨ entities.lookup c = none := by
  obtain ⟨d, -, mem⟩ := List.mem_flatMap.1 h
  unfold escapeChar at mem
  split at mem
  · next name found =>
    have names : entities.all fun e ↦ e.2.all fun c ↦ entities.lookup c == none := by decide
    rcases List.mem_cons.1 mem with rfl | mem
    · exact .inl rfl
    · have plain := List.all_eq_true.1 names _ (mem_entities_of_lookup found)
      exact .inr (eq_of_beq (List.all_eq_true.1 plain c mem))
  · next absent =>
    obtain rfl := List.mem_singleton.1 mem
    exact .inr absent

/-- The characters that no escaped text holds. -/
def separators : List Char := ['|', ';', '=', '[', ']', '<', '>']

/-- No separator is left in escaped text. -/
theorem not_mem_escape {c : Char} (h : c ∈ separators) (cs : List Char) : c ∉ escape cs := by
  have marks : separators.all fun c ↦ c != '&' && entities.lookup c != none := by decide
  have mark := List.all_eq_true.1 marks c h
  simp only [Bool.and_eq_true, bne_iff_ne] at mark
  intro mem
  rcases eq_amp_or_plain_of_mem_escape mem with amp | plain
  · exact mark.1 amp
  · exact mark.2 plain

end TextTags.Escape
