import TextTags.Cache

/-!
# What the cache holds

A cache that holds for each text what cutting it gives keeps doing so, and then it does not matter
to a caller what it holds.
-/

namespace TextTags.Cache

/-- Every entry is what its text is cut into. -/
def Faithful (c : Cache) : Prop :=
  ∀ text shared, c.find? text = some shared → shared.parsed = Parsed.ofText text

/-- An empty cache is faithful. -/
theorem faithful_empty : Faithful {} := by
  intro _ _ found
  simp [find?] at found

private theorem Faithful.cons {c : Cache} (h : c.Faithful) {text : String} {shared : Shared}
    (new : shared.parsed = Parsed.ofText text) :
    Faithful ⟨(text, shared) :: c.entries⟩ := by
  intro other stored found
  rw [find?, List.lookup_cons] at found
  split at found
  · next same =>
    obtain rfl := Option.some.inj found
    rw [eq_of_beq same]
    exact new
  · exact h other stored found

/-- From a faithful cache a text comes as it is parsed afresh. -/
theorem parsed_getOrParse {c : Cache} (h : c.Faithful) (text : String) :
    (c.getOrParse text).1.parsed = Parsed.ofText text := by
  unfold getOrParse insertIfAbsent
  split
  · next found => exact h text _ found
  · rfl

/-- A cache stays faithful when a text is got from it. -/
theorem Faithful.getOrParse {c : Cache} (h : c.Faithful) (text : String) :
    (c.getOrParse text).2.Faithful := by
  unfold Cache.getOrParse insertIfAbsent
  split
  · exact h
  · exact h.cons rfl

end TextTags.Cache
