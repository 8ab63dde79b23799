import TextTags.Proofs.Number.Reading

/-!
# Integer text reads back

An integer of 64 bits is read from a sign that may be missing and digits. The text of an integer is
read as the integer.
-/

namespace TextTags.Number

open TextTags.Text

variable {cs : List Char} {n : Int}

/-- An integer fits into 64 bits between the least and the greatest that does. -/
theorem fitsInt64_iff : fitsInt64 n ↔ minInt64 ≤ n ∧ n ≤ maxInt64 := by
  simp [fitsInt64]

/-- What is read as an integer is a sign that may be missing and digits. -/
theorem int64?_eq_some_iff : int64? cs = some n ↔ (takeSign cs).2 ≠ [] ∧
    (∀ c ∈ (takeSign cs).2, isAsciiDigit c) ∧
      n = signed (takeSign cs).1 (digitsValue (takeSign cs).2) ∧ fitsInt64 n := by
  unfold int64?
  obtain ⟨negative, digits⟩ := takeSign cs
  grind

private theorem natDigits_ne_nil (n : Nat) : natDigits n ≠ [] := Nat.toDigits_ne_nil

/-- The digits of an integer are those of its absolute value after its sign. -/
theorem intDigits_eq (n : Int) :
    intDigits n = floatChars.sign (n < 0) ++ natDigits n.natAbs := by
  unfold intDigits
  by_cases negative : n < 0 <;> simp [negative, floatChars.sign]

/-- An integer is its absolute value with its sign. -/
theorem signed_natAbs (n : Int) : signed (n < 0) n.natAbs = n := by
  unfold signed
  split
  · next negative =>
    have negative := of_decide_eq_true negative
    omega
  · next positive =>
    have positive := of_decide_eq_false (Bool.eq_false_iff.2 positive)
    omega

/-- The text of an integer of 64 bits is read as the integer. -/
theorem int64?_intDigits (fits : fitsInt64 n) : int64? (intDigits n) = some n := by
  have digits : ∀ c ∈ natDigits n.natAbs, isAsciiDigit c := fun c h ↦
    isAsciiDigit_of_mem_natDigits h
  have sign := takeSign_sign (n < 0) (natDigits_ne_nil n.natAbs) digits []
  rw [List.append_nil] at sign
  rw [int64?_eq_some_iff, intDigits_eq, sign]
  exact ⟨natDigits_ne_nil _, digits, by rw [digitsValue_natDigits, signed_natAbs], fits⟩

end TextTags.Number
