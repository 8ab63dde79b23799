/-!
# Cutting texts

Splitting at characters and at whole separators, the search for a text inside another, and texts
joined by a separator. Everything works on lists of characters.
-/

namespace TextTags.Text

/-- The stretches between the characters that satisfy `p`, in order; there is always one. -/
def splitWhere (p : Char → Bool) : List Char → List (List Char)
  | [] => [[]]
  | c :: rest =>
    if p c then [] :: splitWhere p rest
    else match splitWhere p rest with
      | [] => [[c]]
      | piece :: pieces => (c :: piece) :: pieces

/-- No piece is longer than the text. -/
theorem length_le_of_mem_splitWhere {p : Char → Bool} {cs piece : List Char}
    (h : piece ∈ splitWhere p cs) : piece.length ≤ cs.length := by
  fun_induction splitWhere p cs generalizing piece with
  | case1 => simp_all
  | case2 c rest _ ih =>
    rcases List.mem_cons.1 h with rfl | h
    · simp
    · have := ih h
      simp only [List.length_cons]; omega
  | case3 => simp_all
  | case4 c rest _ first others heq ih =>
    rcases List.mem_cons.1 h with rfl | h
    · have := ih (heq ▸ List.mem_cons_self)
      simp only [List.length_cons]; omega
    · have := ih (heq ▸ List.mem_cons_of_mem _ h)
      simp only [List.length_cons]; omega

/-- What stands before and after the first occurrence of a character. -/
def splitOnce (mark : Char) : List Char → Option (List Char × List Char)
  | [] => none
  | c :: rest =>
    if c = mark then some ([], rest)
    else (splitOnce mark rest).map fun (before, after) => (c :: before, after)

/-- The two parts with the mark between them make up the text. -/
theorem eq_append_of_splitOnce {mark : Char} {cs before after : List Char}
    (h : splitOnce mark cs = some (before, after)) : cs = before ++ mark :: after := by
  induction cs generalizing before with
  | nil => simp [splitOnce] at h
  | cons c rest ih =>
    unfold splitOnce at h
    split at h
    · simp_all
    · obtain ⟨⟨b, a⟩, hp, heq⟩ := Option.map_eq_some_iff.1 h
      simp only [Prod.mk.injEq] at heq
      obtain ⟨rfl, rfl⟩ := heq
      simp [ih hp]

/-- The two parts and the mark have the length of the text. -/
theorem length_splitOnce {mark : Char} {cs before after : List Char}
    (h : splitOnce mark cs = some (before, after)) :
    cs.length = before.length + after.length + 1 := by
  simp [eq_append_of_splitOnce h]; omega

/-- The stretches between the occurrences of a separator `first :: more`, found from left to right
without overlap. -/
def splitAtWord (first : Char) (more : List Char) : List Char → List (List Char)
  | [] => [[]]
  | c :: rest =>
    if c = first ∧ more.isPrefixOf rest then
      [] :: splitAtWord first more (rest.drop more.length)
    else match splitAtWord first more rest with
      | [] => [[c]]
      | piece :: pieces => (c :: piece) :: pieces
termination_by cs => cs.length
decreasing_by all_goals simp only [List.length_drop, List.length_cons]; omega

/-- Whether a text occurs inside another. -/
def occursIn (needle : List Char) : List Char → Bool
  | [] => needle.isEmpty
  | c :: rest => needle.isPrefixOf (c :: rest) || occursIn needle rest

/-- The texts one after another with a separator between neighbours. -/
def joinWith (sep : List Char) : List (List Char) → List Char
  | [] => []
  | [piece] => piece
  | piece :: pieces => piece ++ sep ++ joinWith sep pieces

/-- The size of a text in UTF-8. -/
def byteLength : List Char → Nat
  | [] => 0
  | c :: rest => c.utf8Size + byteLength rest

/-- The decimal digits of a natural number. -/
def natDigits (n : Nat) : List Char := Nat.toDigits 10 n

/-- The decimal digits of an integer after its sign, which only a negative number has. -/
def intDigits (n : Int) : List Char :=
  if n < 0 then '-' :: natDigits n.natAbs else natDigits n.natAbs

/-- A text brought to a least width by a filler before it. -/
def padStart (width : Nat) (filler : Char) (cs : List Char) : List Char :=
  List.replicate (width - cs.length) filler ++ cs

end TextTags.Text
