import TextTags.Duration
import TextTags.Proofs.Number.Reading

/-!
# Durations read back

The identity of a duration of finitely many seconds holds no capital, no blank and no dash but a
sign, so the reader takes it for a single number with its unit.
-/

namespace TextTags

open Text Number

namespace Text

/-- A text without blanks is not trimmed. -/
theorem trim_eq_self {cs : List Char} (h : ∀ c ∈ cs, isBlank c = false) : trim cs = cs := by
  have start : trimStart cs = cs := by
    cases cs with
    | nil => rfl
    | cons c rest => simp [trimStart, h c List.mem_cons_self]
  have keep : cs.reverse.dropWhile isBlank = cs.reverse := by
    cases back : cs.reverse with
    | nil => rfl
    | cons c rest =>
      have : c ∈ cs := List.mem_reverse.1 (back ▸ List.mem_cons_self)
      simp [h c this]
  rw [trim, start, trimEnd, keep, List.reverse_reverse]

private theorem lowerAfter_eq_self {before cs : List Char}
    (h : ∀ c ∈ cs, c.toNat < 128 ∧ asciiLower c = c) : lowerAfter before cs = cs := by
  induction cs generalizing before with
  | nil => rfl
  | cons c rest ih =>
    have plain := h c List.mem_cons_self
    have sigma : c ≠ 'Σ' := by
      rintro rfl
      exact absurd plain.1 (by decide)
    rw [lowerAfter, ih fun c mem ↦ h c (List.mem_cons_of_mem _ mem)]
    simp [sigma, lowerChar, plain]

end Text

/-- What can be drawn between two integers are the integers from one to the other. -/
theorem Draws.exists_integer_eq_iff {a b n : Int} :
    (∃ draw : Draws, draw.integer a b = n) ↔ min a b ≤ n ∧ n ≤ max a b := by
  constructor
  · rintro ⟨draw, rfl⟩
    have lt : draw.drawn [a, b] % ((max a b - min a b).toNat + 1) < (max a b - min a b).toNat + 1 :=
      Nat.mod_lt _ (Nat.succ_pos _)
    unfold integer
    dsimp only
    omega
  · rintro ⟨least, most⟩
    refine ⟨⟨fun _ ↦ (n - min a b).toNat⟩, ?_⟩
    unfold integer
    dsimp only
    rw [Nat.mod_eq_of_lt (by omega)]
    omega

namespace Duration

/-- The characters of the number of seconds, the mark and the unit. -/
theorem plain_of_mem_identityChars {d : Duration} (finite : d.seconds.isFinite) {c : Char}
    (h : c ∈ d.identityChars) : isBlank c = false ∧ c.toNat < 128 ∧ asciiLower c = c := by
  obtain ⟨negative, body, text, plain⟩ := floatChars_eq finite
  have chars : c ∈ ['d', '@', 's', '-'] ∨ isNumberChar c := by
    simp only [identityChars, text, List.mem_append, List.mem_cons] at h
    have sign : c ∈ floatChars.sign negative → c = '-' := by
      cases negative <;> simp [floatChars.sign]
    have := plain c
    simp only [List.mem_cons]
    tauto
  rcases chars with special | number
  · simp only [List.mem_cons, List.not_mem_nil, or_false] at special
    rcases special with rfl | rfl | rfl | rfl <;> decide
  · have range := toNat_of_isNumberChar number
    refine ⟨?_, by omega, ?_⟩
    · simp [isBlank, inRanges, blankRanges]
      omega
    · simp [asciiLower, Char.le_def, UInt32.le_iff_toNat_le]
      omega

/-- Whether a text is one of a duration does not depend on what is drawn from its ranges. -/
theorem isSome_ofLower? (cs : List Char) (draw draw' : Draws) :
    (ofLower? cs draw).isSome = (ofLower? cs draw').isSome := by
  fun_induction ofLower? cs draw generalizing draw' with
  | case1 cs draw body word => rw [ofLower?.eq_def cs draw', if_pos word]
  | case2 cs draw body word range low high cut ihLow ihHigh =>
    rw [ofLower?.eq_def cs draw', if_neg word, if_pos range]
    split
    · next low' high' cut' =>
      obtain ⟨rfl, rfl⟩ := Prod.mk.inj (Option.some.inj (cut.symm.trans cut'))
      have drawn (draw : Draws) : (do
          some (between draw (← ofLower? low (draw.within 0)) (← ofLower? high (draw.within 1))) :
            Option Duration).isSome =
          ((ofLower? low (draw.within 0)).isSome && (ofLower? high (draw.within 1)).isSome) := by
        cases ofLower? low (draw.within 0) <;> cases ofLower? high (draw.within 1) <;> rfl
      rw [drawn, drawn, ihLow (draw'.within 0), ihHigh (draw'.within 1)]
    · next absent => exact nomatch cut.symm.trans absent
  | case3 cs draw body word range cut =>
    rw [ofLower?.eq_def cs draw', if_neg word, if_pos range]
    split
    · next cut' => exact nomatch cut.symm.trans cut'
    · rfl
  | case4 cs draw body word range => rw [ofLower?.eq_def cs draw', if_neg word, if_neg range]

/-- The number of seconds with its unit is not taken for a word or a range. -/
theorem ofLower?_number (negative : Bool) {body : List Char}
    (plain : ∀ c ∈ body, isNumberChar c) :
    zeroWords.contains (floatChars.sign negative ++ body ++ ['s']) = false ∧
      isRange (floatChars.sign negative ++ body ++ ['s']) = false := by
  constructor
  · have last : (floatChars.sign negative ++ body ++ ['s']).getLast? = some 's' := by simp
    have words : ∀ word ∈ zeroWords, word.getLast? ≠ some 's' := by decide
    refine Bool.eq_false_iff.2 fun mem ↦ ?_
    exact words _ (List.contains_iff_mem.1 mem) last
  · cases negative
    · have dash : '-' ∉ body := by
        intro mem
        have := toNat_of_isNumberChar (plain _ mem)
        simp at this
      simp [isRange, floatChars.sign, dash]
    · simp [isRange, floatChars.sign]

/-- A duration of finitely many seconds is read back from its identity. -/
theorem ofChars?_identityChars {d : Duration} (finite : d.seconds.isFinite) (draw : Draws) :
    ofChars? d.identityChars draw = some d := by
  have trimmed : trim d.identityChars = d.identityChars :=
    trim_eq_self fun c h ↦ (plain_of_mem_identityChars finite h).1
  have lowered : lowerChars d.identityChars = d.identityChars :=
    lowerAfter_eq_self fun c h ↦ (plain_of_mem_identityChars finite h).2
  obtain ⟨negative, body, text, plain⟩ := floatChars_eq finite
  obtain ⟨word, range⟩ := ofLower?_number negative plain
  have unmarked : withoutMark d.identityChars = floatChars.sign negative ++ body ++ ['s'] := by
    rw [← text]
    rfl
  rw [ofChars?, trimmed, lowered, ofLower?]
  simp only [trimmed, unmarked, word, range, Bool.false_eq_true, if_false]
  have untrimmed : trim (floatChars d.seconds) = floatChars d.seconds := by
    refine trim_eq_self fun c h ↦ (plain_of_mem_identityChars finite (c := c) ?_).1
    simp [identityChars, h]
  obtain ⟨_, _, _, parts⟩ := exists_isFinite finite
  have unit : unit? 's' = some 1.0 := rfl
  have last : isAsciiDigit 's' = false := rfl
  rw [← text]
  simp [single?, unit, last, untrimmed, float?_floatChars finite, parts.mul_one, finite]

end Duration

end TextTags
