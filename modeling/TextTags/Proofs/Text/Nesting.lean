import Mathlib.Data.List.Infix

/-!
# Nested brackets

Whether the brackets of one sort in a text match is a matter of counting: as many are open at the
end as at the start, and none is closed that is not open.
-/

namespace TextTags.Text

variable {opening closing : Char}

/-- The brackets open after a text of which `depth` were open before it; none if one is closed that
is not open. -/
def depthAfter (opening closing : Char) (depth : Nat) : List Char → Option Nat
  | [] => some depth
  | c :: rest =>
    if c = opening then depthAfter opening closing (depth + 1) rest
    else if c = closing then
      if depth = 0 then none else depthAfter opening closing (depth - 1) rest
    else depthAfter opening closing depth rest

/-- Every bracket is closed, and none that is not open. -/
def Balanced (opening closing : Char) (cs : List Char) : Prop :=
  depthAfter opening closing 0 cs = some 0

/-- The depth after two texts is reached through the one after the first. -/
theorem depthAfter_append (depth : Nat) (cs rest : List Char) :
    depthAfter opening closing depth (cs ++ rest) =
      (depthAfter opening closing depth cs).bind fun d ↦ depthAfter opening closing d rest := by
  induction cs generalizing depth with
  | nil => rfl
  | cons c cs ih =>
    simp only [List.cons_append, depthAfter]
    split
    · exact ih _
    · split
      · split
        · rfl
        · exact ih _
      · exact ih _

private theorem depthAfter_eq_self {cs : List Char} (h : opening ∉ cs) (h' : closing ∉ cs)
    (depth : Nat) :
    depthAfter opening closing depth cs = some depth := by
  induction cs with
  | nil => rfl
  | cons c rest ih =>
    rw [List.mem_cons, not_or] at h h'
    rw [depthAfter, if_neg (Ne.symm h.1), if_neg (Ne.symm h'.1), ih h.2 h'.2]

/-- Within an open bracket, a character of balanced text is never the one that closes it. -/
theorem depthAfter_cons (apart : opening ≠ closing) {depth after : Nat} {c : Char}
    {rest : List Char} (h : depthAfter opening closing depth (c :: rest) = some after) :
    ∃ next, depthAfter opening closing next rest = some after ∧ ¬ (c = closing ∧ depth = 0) ∧
      next + 1 = if c = opening then depth + 1 + 1 else if c = closing then depth + 1 - 1
        else depth + 1 := by
  unfold depthAfter at h
  split at h
  · next opens =>
    exact ⟨depth + 1, h, fun closes ↦ apart (opens.symm.trans closes.1), by rw [if_pos opens]⟩
  · next other =>
    split at h
    · next closes =>
      split at h
      · contradiction
      · next hne =>
        refine ⟨depth - 1, h, fun hno ↦ hne hno.2, ?_⟩
        rw [if_neg other, if_pos closes]
        omega
    · next plain =>
      exact ⟨depth, h, fun closes ↦ plain closes.1, by rw [if_neg other, if_neg plain]⟩

/-- Brackets that were open before stay open. -/
theorem depthAfter_add {depth after : Nat} {cs : List Char}
    (h : depthAfter opening closing depth cs = some after) (more : Nat) :
    depthAfter opening closing (depth + more) cs = some (after + more) := by
  induction cs generalizing depth with
  | nil =>
    obtain rfl := Option.some.inj h
    rfl
  | cons c rest ih =>
    unfold depthAfter at h ⊢
    split
    · next opens =>
      rw [if_pos opens] at h
      rw [Nat.add_right_comm]
      exact ih h
    · next other =>
      rw [if_neg other] at h
      split
      · next closes =>
        rw [if_pos closes] at h
        by_cases zero : depth = 0
        · rw [if_pos zero] at h
          contradiction
        · rw [if_neg zero] at h
          rw [if_neg (by omega), Nat.sub_add_comm (by omega)]
          exact ih h
      · next plain =>
        rw [if_neg plain] at h
        exact ih h

/-- Whether no beginning of a text closes more brackets than it opens, and the whole text closes as
many as it opens. -/
structure Matches (opening closing : Char) (cs : List Char) : Prop where
  before : ∀ before, before <+: cs → before.count closing ≤ before.count opening
  whole : cs.count closing = cs.count opening

instance (opening closing : Char) (cs : List Char) : Decidable (Matches opening closing cs) :=
  decidable_of_iff ((∀ before ∈ cs.inits, before.count closing ≤ before.count opening) ∧
      cs.count closing = cs.count opening)
    ⟨fun h ↦ ⟨fun before pre ↦ h.1 before ((List.mem_inits _ _).2 pre), h.2⟩,
      fun h ↦ ⟨fun before mem ↦ h.before before ((List.mem_inits _ _).1 mem), h.whole⟩⟩

/-- From any number of open brackets that no beginning of a text brings below none, the text leads
to the number that counting gives. -/
theorem depthAfter_of_count (apart : opening ≠ closing) {depth : Nat} {cs : List Char}
    (enough : ∀ before, before <+: cs → before.count closing ≤ depth + before.count opening) :
    depthAfter opening closing depth cs = some (depth + cs.count opening - cs.count closing) := by
  -- That no beginning closes more than is open is what each bracket passes on, at its own depth.
  induction cs generalizing depth with
  | nil => rfl
  | cons c rest ih =>
    have later (before : List Char) (pre : before <+: rest) :
        (c :: before).count closing ≤ depth + (c :: before).count opening :=
      enough _ (List.cons_prefix_cons.2 ⟨rfl, pre⟩)
    unfold depthAfter
    by_cases opens : c = opening
    · subst opens
      rw [if_pos rfl, ih fun before pre ↦ ?_]
      · simp only [List.count_cons_self, List.count_cons_of_ne apart]
        congr 1
        omega
      · have bound := later before pre
        simp only [List.count_cons_self, List.count_cons_of_ne apart] at bound
        omega
    · rw [if_neg opens]
      by_cases closes : c = closing
      · subst closes
        have hne := later [] List.nil_prefix
        simp only [List.count_cons_self, List.count_cons_of_ne opens, List.count_nil] at hne
        rw [if_pos rfl, if_neg (by omega), ih fun before pre ↦ ?_]
        · simp only [List.count_cons_self, List.count_cons_of_ne opens]
          congr 1
          omega
        · have bound := later before pre
          simp only [List.count_cons_self, List.count_cons_of_ne opens] at bound
          omega
      · rw [if_neg closes, ih fun before pre ↦ ?_]
        · rw [List.count_cons_of_ne opens, List.count_cons_of_ne closes]
        · have bound := later before pre
          rwa [List.count_cons_of_ne opens, List.count_cons_of_ne closes] at bound

/-- Brackets that match are balanced. -/
theorem Matches.balanced (apart : opening ≠ closing) {cs : List Char}
    (h : Matches opening closing cs) : Balanced opening closing cs := by
  rw [Balanced, depthAfter_of_count apart fun before pre ↦ ?_, h.whole]
  · rw [Nat.zero_add, Nat.sub_self]
  · rw [Nat.zero_add]
    exact h.before before pre

/-- What is open after a text has been opened before it or in it, and not closed. -/
theorem count_of_depthAfter (apart : opening ≠ closing) {depth after : Nat} {cs : List Char}
    (h : depthAfter opening closing depth cs = some after) :
    after + cs.count closing = depth + cs.count opening := by
  induction cs generalizing depth with
  | nil =>
    obtain rfl := Option.some.inj h
    rfl
  | cons c rest ih =>
    unfold depthAfter at h
    by_cases opens : c = opening
    · subst opens
      rw [if_pos rfl] at h
      have counted := ih h
      rw [List.count_cons_self, List.count_cons_of_ne apart]
      omega
    · rw [if_neg opens] at h
      by_cases closes : c = closing
      · subst closes
        rw [if_pos rfl] at h
        by_cases hno : depth = 0
        · rw [if_pos hno] at h
          contradiction
        · rw [if_neg hno] at h
          have counted := ih h
          rw [List.count_cons_self, List.count_cons_of_ne opens]
          omega
      · rw [if_neg closes] at h
        rw [List.count_cons_of_ne opens, List.count_cons_of_ne closes]
        exact ih h

/-- No beginning of a text that has an end closes more than is open. -/
theorem count_le_of_depthAfter (apart : opening ≠ closing) {depth after : Nat} {cs : List Char}
    (h : depthAfter opening closing depth cs = some after) {before : List Char}
    (pre : before <+: cs) : before.count closing ≤ depth + before.count opening := by
  obtain ⟨rest, rfl⟩ := pre
  rw [depthAfter_append] at h
  obtain ⟨between, kept, -⟩ := Option.bind_eq_some_iff.1 h
  have counted := count_of_depthAfter apart kept
  omega

/-- Brackets match one by one if and only if their numbers do. -/
theorem balanced_iff (apart : opening ≠ closing) {cs : List Char} :
    Balanced opening closing cs ↔ Matches opening closing cs := by
  constructor
  · intro h
    refine ⟨fun before pre ↦ ?_, ?_⟩
    · simpa using count_le_of_depthAfter apart h pre
    · simpa using count_of_depthAfter apart h
  · exact fun h ↦ h.balanced apart

/-- A text without brackets is balanced. -/
theorem Balanced.of_plain {cs : List Char} (h : opening ∉ cs) (h' : closing ∉ cs) :
    Balanced opening closing cs :=
  depthAfter_eq_self h h' 0

/-- A balanced text leaves the depth as it was. -/
theorem Balanced.depthAfter {cs : List Char} (h : Balanced opening closing cs) (depth : Nat) :
    depthAfter opening closing depth cs = some depth := by
  simpa using depthAfter_add h depth

/-- Two balanced texts are balanced one after the other. -/
theorem Balanced.append {cs rest : List Char} (h : Balanced opening closing cs)
    (h' : Balanced opening closing rest) : Balanced opening closing (cs ++ rest) := by
  rw [Balanced, depthAfter_append, h]
  exact h'

/-- A balanced text between brackets is balanced. -/
theorem Balanced.wrap (apart : opening ≠ closing) {cs : List Char}
    (h : Balanced opening closing cs) : Balanced opening closing (opening :: cs ++ [closing]) := by
  rw [Balanced, List.cons_append, Text.depthAfter, if_pos rfl, depthAfter_append, h.depthAfter]
  simp [Text.depthAfter, Ne.symm apart]

end TextTags.Text
