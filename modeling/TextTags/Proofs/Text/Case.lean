import TextTags.Text.Case

/-!
# Lower case

A text in lower case stays as it is when it is put into lower case again: what the table of lower
case gives has no other lower case, and none of it is a capital sigma. Marks come of marks alone.
Texts that differ in ASCII case have one lower-case form.
-/

namespace TextTags.Text

namespace CaseRun

variable {r r' : CaseRun} {n : Nat}

/-- The code point that a run maps a code point to. -/
def low (r : CaseRun) (n : Nat) : Nat := (n + r.shift).toNat

/-- Whether no code point that a run gives is held by another run: the two are apart, or they go in
steps of two that do not meet. -/
def avoids (r r' : CaseRun) : Bool :=
  (r.low r.last).blt r'.first || r'.last.blt (r.low r.first) ||
    (r'.stride == 2 && (r.stride == 2 || r.first == r.last) && (r.low r.first + r'.first) % 2 == 1)

/-- Whether what a run gives is left as it is by the whole table, is a letter where it is of the
ASCII set, and is not the capital dotted i. -/
def settles (r : CaseRun) : Bool :=
  lowerRuns.all r.avoids && 97 ≤ r.low r.first && (r.low r.last ≤ 122 || 128 ≤ r.low r.first) &&
    (r.low r.last < 0x130 || 0x130 < r.low r.first)

private theorem settles_lowerRuns : lowerRuns.all settles := by
  decide +kernel

private theorem holds_iff :
    r.holds n ↔ r.first ≤ n ∧ n ≤ r.last ∧ (n - r.first) % r.stride = 0 := by
  simp [holds, and_assoc]

private theorem not_holds_low (avoids : r.avoids r') (above : 97 ≤ r.low r.first)
    (holds : r.holds n) :
    ¬ r'.holds (r.low n) := by
  rw [holds_iff] at holds ⊢
  obtain ⟨first, last, step⟩ := holds
  simp only [CaseRun.avoids, Bool.or_eq_true, Bool.and_eq_true, Nat.blt_eq, beq_iff_eq] at avoids
  unfold low at *
  rintro ⟨first', last', step'⟩
  rcases avoids with (below | after) | ⟨⟨two', two | one⟩, odd⟩
  · omega
  · omega
  · rw [two] at step
    rw [two'] at step'
    omega
  · rw [two'] at step'
    omega

end CaseRun

/-- A code point is in no run, or it is mapped by one of the runs. -/
theorem mapCode_cases (n : Nat) :
    ((∀ r ∈ lowerRuns, ¬ r.holds n) ∧ mapCode lowerRuns n = n) ∨
      ∃ r ∈ lowerRuns, r.holds n ∧ mapCode lowerRuns n = r.low n := by
  unfold mapCode
  cases found : lowerRuns.find? (·.holds n) with
  | none => exact .inl ⟨List.find?_eq_none.1 found, rfl⟩
  | some r =>
    have holds := List.find?_some (p := fun r : CaseRun ↦ r.holds n) found
    exact .inr ⟨r, List.mem_of_find?_eq_some found, holds, rfl⟩

private theorem mapCode_of_not_holds {n : Nat} (hno : ∀ r ∈ lowerRuns, ¬ r.holds n) :
    mapCode lowerRuns n = n := by
  rw [mapCode, List.find?_eq_none.2 hno]

/-- What the table gives is in no run, and is either unchanged or no mark, and not a dotted i. -/
theorem mapCode_settled {n : Nat} (beyond : 128 ≤ n) (dotless : n ≠ 0x130) :
    (∀ r ∈ lowerRuns, ¬ r.holds (mapCode lowerRuns n)) ∧ mapCode lowerRuns n ≠ 0x130 ∧
      97 ≤ mapCode lowerRuns n ∧ (mapCode lowerRuns n ≤ 122 ∨ 128 ≤ mapCode lowerRuns n) := by
  rcases mapCode_cases n with ⟨hno, same⟩ | ⟨r, mem, holds, moved⟩
  · rw [same]
    exact ⟨hno, dotless, by omega, .inr beyond⟩
  · have settles := List.all_eq_true.1 CaseRun.settles_lowerRuns r mem
    simp only [CaseRun.settles, Bool.and_eq_true, Bool.or_eq_true, decide_eq_true_eq] at settles
    obtain ⟨⟨⟨avoids, above⟩, letter⟩, dotted⟩ := settles
    rw [moved]
    refine ⟨fun r' mem' ↦ CaseRun.not_holds_low (List.all_eq_true.1 avoids r' mem') above holds, ?_⟩
    rw [CaseRun.holds_iff] at holds
    unfold CaseRun.low at *
    omega

/-- Whether a character stays as it is in lower case, wherever it stands. -/
def IsLow (c : Char) : Prop := c ≠ 'Σ' ∧ lowerChar c = [c]

private theorem isLow_of_not_holds {c : Char} (beyond : 128 ≤ c.toNat) (dotless : c.toNat ≠ 0x130)
    (hno : ∀ r ∈ lowerRuns, ¬ r.holds c.toNat) : IsLow c := by
  constructor
  · rintro rfl
    have held : lowerRuns.any (·.holds 'Σ'.toNat) := by decide +kernel
    obtain ⟨r, mem, holds⟩ := List.any_eq_true.1 held
    exact hno r mem holds
  · have other : c ≠ 'İ' := by
      rintro rfl
      exact dotless rfl
    rw [lowerChar, if_neg (by omega), if_neg other, mapCode_of_not_holds hno, Char.ofNat_toNat]

/-- The codes of the capital letters of the ASCII set. -/
theorem isCapital_iff {c : Char} : 'A' ≤ c ∧ c ≤ 'Z' ↔ 65 ≤ c.toNat ∧ c.toNat ≤ 90 := by
  simp only [Char.le_def, UInt32.le_iff_toNat_le]
  rfl

private theorem isLow_of_ascii {c : Char} (ascii : c.toNat < 128) (small : ¬ ('A' ≤ c ∧ c ≤ 'Z')) :
    IsLow c := by
  constructor
  · rintro rfl
    exact absurd ascii (by decide)
  · rw [lowerChar, if_pos ascii, asciiLower, if_neg small]

/-- The code of a character is the number that it is made of. -/
theorem toNat_ofNat {n : Nat} (valid : n.isValidChar) : (Char.ofNat n).toNat = n := by
  rw [Char.ofNat, dif_pos valid]
  rfl

/-- Whether a character is a mark of the ASCII set: neither a letter nor blank. -/
def IsMark (c : Char) : Prop :=
  (33 ≤ c.toNat ∧ c.toNat ≤ 64) ∨ (91 ≤ c.toNat ∧ c.toNat ≤ 96) ∨ (123 ≤ c.toNat ∧ c.toNat ≤ 126)

instance (c : Char) : Decidable (IsMark c) := inferInstanceAs (Decidable (_ ∨ _))

/-- What a character becomes in lower case: it stays so, and it is no mark that the character was
not. -/
structure IsLowerOf (c d : Char) : Prop where
  low : IsLow d
  mark : IsMark d → d = c

private theorem isLowerOf_ascii {c : Char} (ascii : c.toNat < 128) :
    IsLowerOf c (asciiLower c) := by
  by_cases capital : 'A' ≤ c ∧ c ≤ 'Z'
  · have range := isCapital_iff.1 capital
    have code : (asciiLower c).toNat = c.toNat + 32 := by
      rw [asciiLower, if_pos capital]
      exact toNat_ofNat (.inl (by omega))
    have small : ¬ ('A' ≤ asciiLower c ∧ asciiLower c ≤ 'Z') := by
      rw [isCapital_iff]
      omega
    exact ⟨isLow_of_ascii (by omega) small, fun mark ↦ by unfold IsMark at mark; omega⟩
  · have same : asciiLower c = c := if_neg capital
    rw [same]
    exact ⟨isLow_of_ascii ascii capital, fun _ ↦ rfl⟩

/-- Numbers that are no characters give the character zero. -/
theorem ofNat_cases (n : Nat) : (Char.ofNat n).toNat = n ∨ Char.ofNat n = '\x00' := by
  by_cases valid : n.isValidChar
  · exact .inl (toNat_ofNat valid)
  · exact .inr (dif_neg valid)

private theorem isLowerOf_mapCode {c : Char} (beyond : 128 ≤ c.toNat) (dotless : c ≠ 'İ') :
    IsLowerOf c (Char.ofNat (mapCode lowerRuns c.toNat)) := by
  have code : c.toNat ≠ 0x130 := by
    intro same
    exact dotless (by rw [← Char.ofNat_toNat c, same])
  obtain ⟨hno, dotless', above, letter⟩ := mapCode_settled beyond code
  rcases ofNat_cases (mapCode lowerRuns c.toNat) with same | zero
  · refine ⟨?_, fun mark ↦ by unfold IsMark at mark; omega⟩
    by_cases ascii : (Char.ofNat (mapCode lowerRuns c.toNat)).toNat < 128
    · refine isLow_of_ascii ascii ?_
      rw [isCapital_iff]
      omega
    · refine isLow_of_not_holds (by omega) ?_ ?_
      · rwa [same]
      · rwa [same]
  · rw [zero]
    exact ⟨⟨by decide, by decide⟩, fun mark ↦ absurd mark (by decide)⟩

private theorem isLowerOf_of_mem {c d : Char} (mem : d ∈ lowerChar c) : IsLowerOf c d := by
  unfold lowerChar at mem
  split at mem
  · next ascii =>
    rw [List.mem_singleton.1 mem]
    exact isLowerOf_ascii ascii
  · next beyond =>
    split at mem
    · rcases List.mem_cons.1 mem with rfl | mem
      · exact ⟨⟨by decide, by decide⟩, fun mark ↦ absurd mark (by decide)⟩
      · rw [List.mem_singleton.1 mem]
        exact ⟨⟨by decide, by decide +kernel⟩, fun mark ↦ absurd mark (by decide)⟩
    · next dotless =>
      rw [List.mem_singleton.1 mem]
      exact isLowerOf_mapCode (by omega) dotless

private theorem isLowerOf_of_mem_lowerAfter {before cs : List Char} {d : Char}
    (mem : d ∈ lowerAfter before cs) : ∃ c ∈ cs, IsLowerOf c d := by
  induction cs generalizing before with
  | nil => contradiction
  | cons c rest ih =>
    rw [lowerAfter] at mem
    rcases List.mem_append.1 mem with first | later
    · refine ⟨c, List.mem_cons_self, ?_⟩
      split at first
      · split at first
        all_goals
          rw [List.mem_singleton.1 first]
          exact ⟨⟨by decide, by decide +kernel⟩, fun mark ↦ absurd mark (by decide)⟩
      · exact isLowerOf_of_mem first
    · obtain ⟨c', mem', lower⟩ := ih later
      exact ⟨c', List.mem_cons_of_mem _ mem', lower⟩

private theorem lowerAfter_of_isLow {before cs : List Char} (low : ∀ c ∈ cs, IsLow c) :
    lowerAfter before cs = cs := by
  induction cs generalizing before with
  | nil => rfl
  | cons c rest ih =>
    obtain ⟨other, same⟩ := low c List.mem_cons_self
    rw [lowerAfter, if_neg other, same, ih fun c mem ↦ low c (List.mem_cons_of_mem _ mem)]
    rfl

/-- A text in lower case stays as it is. -/
theorem lowerChars_lowerChars (cs : List Char) : lowerChars (lowerChars cs) = lowerChars cs := by
  refine lowerAfter_of_isLow fun d mem ↦ ?_
  obtain ⟨c, -, lower⟩ := isLowerOf_of_mem_lowerAfter mem
  exact lower.low

/-- Lower case is reached at once. -/
theorem lower_lower (s : String) : lower (lower s) = lower s := by
  rw [lower, lower, String.toList_ofList, lowerChars_lowerChars]

private theorem asciiLower_of_beyond {c : Char} (beyond : 128 ≤ c.toNat) : asciiLower c = c := by
  refine if_neg fun capital ↦ ?_
  have range := isCapital_iff.1 capital
  omega

private theorem asciiLower_of_isLow {c : Char} (low : IsLow c) : asciiLower c = c := by
  by_cases ascii : c.toNat < 128
  · have same := low.2
    rw [lowerChar, if_pos ascii] at same
    exact List.singleton_inj.1 same
  · exact asciiLower_of_beyond (by omega)

/-- The letters of the ASCII set in a text in lower case are in lower case. -/
theorem asciiLowerChars_lower (s : String) :
    asciiLowerChars (lower s).toList = (lower s).toList := by
  refine List.map_congr_left (fun d mem ↦ ?_) |>.trans (List.map_id _)
  rw [lower, String.toList_ofList] at mem
  obtain ⟨c, -, lower⟩ := isLowerOf_of_mem_lowerAfter mem
  exact asciiLower_of_isLow lower.low

private theorem isLow_of_isMark {m : Char} (mark : IsMark m) : IsLow m := by
  unfold IsMark at mark
  refine isLow_of_ascii (by omega) ?_
  rw [isCapital_iff]
  omega

private theorem mem_lowerAfter_of_isLow {before cs : List Char} {c : Char} (low : IsLow c)
    (mem : c ∈ cs) :
    c ∈ lowerAfter before cs := by
  induction cs generalizing before with
  | nil => contradiction
  | cons first rest ih =>
    rw [lowerAfter]
    rcases List.mem_cons.1 mem with rfl | later
    · rw [if_neg low.1, low.2]
      exact List.mem_cons_self
    · exact List.mem_append_right _ (ih later)

/-- Marks of the ASCII set stay where they are, and there are no others. -/
theorem mem_lowerChars_iff {m : Char} (mark : IsMark m) {cs : List Char} :
    m ∈ lowerChars cs ↔ m ∈ cs := by
  constructor
  · intro mem
    obtain ⟨c, mem, lower⟩ := isLowerOf_of_mem_lowerAfter mem
    rwa [lower.mark mark]
  · exact mem_lowerAfter_of_isLow (isLow_of_isMark mark)

/-! ## Texts that differ in ASCII case -/

/-- Capital and small letters of the ASCII set count alike in a word. -/
theorem inRanges_asciiLower (c : Char) :
    inRanges caseIgnorableRanges (asciiLower c) = inRanges caseIgnorableRanges c ∧
      inRanges casedRanges (asciiLower c) = inRanges casedRanges c := by
  by_cases capital : 'A' ≤ c ∧ c ≤ 'Z'
  · have capitals : ∀ n < 91, 65 ≤ n →
        inRanges caseIgnorableRanges (asciiLower (.ofNat n)) =
            inRanges caseIgnorableRanges (.ofNat n) ∧
          inRanges casedRanges (asciiLower (.ofNat n)) = inRanges casedRanges (.ofNat n) := by
      decide +kernel
    have range := isCapital_iff.1 capital
    simpa only [Char.ofNat_toNat] using capitals c.toNat (by omega) range.1
  · rw [asciiLower, if_neg capital]
    exact ⟨rfl, rfl⟩

private theorem meetsCased_map_asciiLower (cs : List Char) :
    meetsCased (cs.map asciiLower) = meetsCased cs := by
  have ignored : inRanges caseIgnorableRanges ∘ asciiLower = inRanges caseIgnorableRanges :=
    funext fun c ↦ (inRanges_asciiLower c).1
  rw [meetsCased, meetsCased, List.dropWhile_map, ignored]
  cases cs.dropWhile (inRanges caseIgnorableRanges) with
  | nil => rfl
  | cons c rest => exact (inRanges_asciiLower c).2

private theorem asciiLower_eq_sigma_iff {c : Char} : asciiLower c = 'Σ' ↔ c = 'Σ' := by
  by_cases ascii : c.toNat < 128
  · have other : c ≠ 'Σ' := by
      rintro rfl
      exact absurd ascii (by decide)
    exact iff_of_false (isLowerOf_ascii ascii).low.1 other
  · rw [asciiLower_of_beyond (by omega)]

private theorem lowerChar_asciiLower (c : Char) : lowerChar (asciiLower c) = lowerChar c := by
  by_cases ascii : c.toNat < 128
  · rw [(isLowerOf_ascii ascii).low.2, lowerChar, if_pos ascii]
  · rw [asciiLower_of_beyond (by omega)]

private theorem lowerAfter_map_asciiLower (before cs : List Char) :
    lowerAfter (before.map asciiLower) (cs.map asciiLower) = lowerAfter before cs := by
  induction cs generalizing before with
  | nil => rfl
  | cons c rest ih =>
    have later := ih (c :: before)
    rw [List.map_cons] at later
    rw [List.map_cons, lowerAfter, lowerAfter, later]
    simp only [asciiLower_eq_sigma_iff, meetsCased_map_asciiLower, lowerChar_asciiLower]

/-- Texts that are the same but for the case of ASCII letters have one lower case. -/
theorem lower_eq_of_sameIgnoringCase {a b : String} (same : sameIgnoringCase a.toList b.toList) :
    lower a = lower b := by
  have chars (s : String) : lowerChars (asciiLowerChars s.toList) = lowerChars s.toList :=
    lowerAfter_map_asciiLower [] s.toList
  rw [lower, lower, ← chars a, ← chars b, eq_of_beq same]

end TextTags.Text
