import Mathlib.Data.Set.Operations
import TextTags.Proofs.Text.Escape

/-!
# What escaping writes

A text is escaped when it holds no separator and every ampersand in it begins an entity. These are
exactly the texts that escaping writes, each for one text only, and unescaping finds that text
(`escape_exact`).
-/

namespace TextTags.Escape

/-- No separator stands in the text, and an ampersand only where an entity begins. -/
structure IsEscaped (cs : List Char) : Prop where
  plain : ∀ c ∈ separators, c ∉ cs
  amps : ∀ rest, '&' :: rest <:+ cs → ∃ e ∈ entities, e.2 <+: rest

private theorem IsEscaped.of_suffix {cs ds : List Char} (h : IsEscaped cs) (suffix : ds <:+ cs) :
    IsEscaped ds where
  plain c mark mem := h.plain c mark (suffix.subset mem)
  amps rest within := h.amps rest (within.trans suffix)

private theorem amp_not_mem_name {c : Char} {name : List Char} (h : (c, name) ∈ entities) :
    '&' ∉ name := by
  have names : entities.all fun e ↦ !e.2.contains '&' := by decide
  simpa using List.all_eq_true.1 names _ h

/-- Every entity is what its character is written as. -/
theorem escapeChar_of_mem {c : Char} {name : List Char} (h : (c, name) ∈ entities) :
    escapeChar c = '&' :: name := by
  have found : entities.all fun e ↦ entities.lookup e.1 == some e.2 := by decide
  have found := eq_of_beq (List.all_eq_true.1 found _ h)
  simp only [escapeChar, found]

/-- What is no ampersand and no separator is written as it is. -/
theorem escapeChar_of_plain {c : Char} (amp : c ≠ '&') (plain : c ∉ separators) :
    escapeChar c = [c] := by
  have known : entities.all fun e ↦ e.1 == '&' || separators.contains e.1 := by decide
  unfold escapeChar
  split
  · next name found =>
    have mark := List.all_eq_true.1 known _ (mem_entities_of_lookup found)
    simp only [Bool.or_eq_true, beq_iff_eq, List.contains_iff_mem] at mark
    exact (mark.elim amp plain).elim
  · rfl

/-- An ampersand behind a text that holds none stands in what follows. -/
theorem suffix_of_amp_not_mem {ds cs rest : List Char} (h : '&' ∉ ds)
    (within : '&' :: rest <:+ ds ++ cs) : '&' :: rest <:+ cs := by
  induction ds with
  | nil => exact within
  | cons d ds ih =>
    rw [List.mem_cons, not_or] at h
    rcases List.suffix_cons_iff.1 within with first | later
    · exact (h.1 (List.cons.inj first).1).elim
    · exact ih h.2 later

private theorem IsEscaped.escapeChar_append (c : Char) {cs : List Char} (h : IsEscaped cs) :
    IsEscaped (escapeChar c ++ cs) where
  plain d mark mem := by
    rcases List.mem_append.1 mem with here | later
    · exact not_mem_escape mark [c] (by simpa [escape] using here)
    · exact h.plain d mark later
  amps rest within := by
    unfold escapeChar at within
    split at within
    · next name found =>
      have entity := mem_entities_of_lookup found
      rcases List.suffix_cons_iff.1 within with first | later
      · obtain rfl := (List.cons.inj first).2
        exact ⟨_, entity, List.prefix_append name cs⟩
      · exact h.amps rest (suffix_of_amp_not_mem (amp_not_mem_name entity) later)
    · next absent =>
      have plain : '&' ∉ [c] := by
        rintro mem
        obtain rfl := List.mem_singleton.1 mem
        simp [entities] at absent
      exact h.amps rest (suffix_of_amp_not_mem plain within)

private theorem isEscaped_escape (cs : List Char) : IsEscaped (escape cs) := by
  induction cs with
  | nil => exact ⟨by simp [escape], by simp [escape]⟩
  | cons c cs ih => exact ih.escapeChar_append c

/-- In an escaped text unescaping leaves no ampersand as it is, so nothing is written anew. -/
theorem IsEscaped.escape_unescape {cs : List Char} (h : IsEscaped cs) :
    escape (unescape cs) = cs := by
  fun_induction unescape cs with
  | case1 => rfl
  | case2 rest mark size found ih =>
    obtain ⟨e, entity, after, rfl⟩ := h.amps rest List.suffix_rfl
    rw [entityAt?_name entity] at found
    obtain ⟨rfl, rfl⟩ := Prod.mk.inj (Option.some.inj found)
    rw [List.drop_left] at ih ⊢
    have later : after <:+ '&' :: (e.2 ++ after) := List.suffix_append ('&' :: e.2) after
    rw [escape, List.flatMap_cons, ← escape, ih (h.of_suffix later), escapeChar_of_mem entity,
      List.cons_append]
  | case3 rest absent ih =>
    obtain ⟨e, entity, after, rfl⟩ := h.amps rest List.suffix_rfl
    rw [entityAt?_name entity] at absent
    cases absent
  | case4 c rest amp ih =>
    have plain : c ∉ separators := fun mark ↦ h.plain c mark List.mem_cons_self
    rw [escape, List.flatMap_cons, ← escape, ih (h.of_suffix (List.suffix_cons c rest)),
      escapeChar_of_plain amp plain, List.singleton_append]

/-- Escaping loses nothing, and it writes exactly the texts that hold no separator and no
ampersand but those of entities. -/
theorem escape_exact :
    (∀ cs, unescape (escape cs) = cs) ∧
    (∀ cs, IsEscaped (escape cs)) ∧
    (∀ cs, IsEscaped cs → escape (unescape cs) = cs) ∧
    Function.Injective escape ∧
    ∀ cs, cs ∈ Set.range escape ↔ IsEscaped cs := by
  refine ⟨unescape_escape, isEscaped_escape, fun cs h ↦ h.escape_unescape,
    Function.LeftInverse.injective unescape_escape, fun cs ↦ ⟨?_, fun h ↦ ?_⟩⟩
  · rintro ⟨text, rfl⟩
    exact isEscaped_escape text
  · exact ⟨unescape cs, h.escape_unescape⟩

/-- A text that names an entity and holds a separator behind it is written as `&ampamp&pipe`, an
escaped text that reads as this text. -/
theorem escape_exact_named :
    IsEscaped "&ampamp&pipe".toList ∧
    unescape "&ampamp&pipe".toList = "&amp|".toList ∧
    escape (unescape "&ampamp&pipe".toList) = "&ampamp&pipe".toList := by
  have written : escape "&amp|".toList = "&ampamp&pipe".toList := by decide +kernel
  obtain ⟨undone, escaped, done, -, -⟩ := escape_exact
  have whole : IsEscaped "&ampamp&pipe".toList := written ▸ escaped _
  exact ⟨whole, written ▸ undone _, done _ whole⟩

end TextTags.Escape
