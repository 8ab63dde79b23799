import TextTags.Element
import TextTags.Proofs.Number.Arithmetic

/-!
# Arithmetic of texts

Where two texts are integers, a result that is an integer of 64 bits is exact; every other one is
that of the floating numbers, which is finite. Only a division by zero has no result.
-/

namespace TextTags.Element

open Number Text

namespace Operation

/-- The result of an operation on integers, as a fraction; none for a division by zero. -/
def rational? (op : Operation) (a b : Int) : Option ℚ :=
  match op with
  | add => some (a + b)
  | sub => some (a - b)
  | mul => some (a * b)
  | div => if b = 0 then none else some (a / b)

/-- The quotient of integers is an integer where nothing is left over. -/
theorem div_eq_intCast_iff {a b n : Int} (hne : b ≠ 0) :
    (a / b : ℚ) = n ↔ a.tmod b = 0 ∧ a.tdiv b = n := by
  have nonzero : (b : ℚ) ≠ 0 := Int.cast_ne_zero.2 hne
  rw [div_eq_iff nonzero]
  constructor
  · intro eq
    obtain rfl : a = n * b := by exact_mod_cast eq
    exact ⟨Int.mul_tmod_left n b, Int.mul_tdiv_cancel n hne⟩
  · rintro ⟨rest, rfl⟩
    exact_mod_cast (Int.tdiv_mul_cancel (Int.dvd_of_tmod_eq_zero rest)).symm

/-- Integer results are the integers among the fractions, as far as 64 bits hold them. -/
theorem exact_eq_some_iff (op : Operation) {a b n : Int} :
    op.exact? a b = some n ↔ op.rational? a b = some (n : ℚ) ∧ fitsInt64 n := by
  unfold Operation.exact? rational?
  rw [Option.filter_eq_some_iff, and_congr_left_iff]
  intro _
  cases op with
  | add | sub | mul =>
    simp only [Option.some.injEq]
    exact_mod_cast Iff.rfl
  | div =>
    by_cases zero : b = 0
    · simp [zero]
    · simp [zero, div_eq_intCast_iff zero]

/-- The result of an operation on words of 64 bits, unless a step of it would overflow or divide by
zero. -/
def word? (op : Operation) (a b : BitVec 64) : Option (BitVec 64) :=
  match op with
  | add => if a.saddOverflow b then none else some (a + b)
  | sub => if a.ssubOverflow b then none else some (a - b)
  | mul => if a.smulOverflow b then none else some (a * b)
  | div =>
    if b = 0 ∨ a.sdivOverflow b then none
    else if a.srem b = 0 then some (a.sdiv b) else none

private theorem toInt_ofInt_of_fits {n : Int} (h : fitsInt64 n) :
    (BitVec.ofInt 64 n).toInt = n := by
  obtain ⟨low, high⟩ := fitsInt64_iff.1 h
  simp only [minInt64, maxInt64, Nat.pow_eq] at low high
  exact BitVec.toInt_ofInt_eq_self (by decide) (by omega) (by omega)

private theorem not_fitsInt64_iff {n : Int} :
    (!fitsInt64 n) = (n ≥ 2 ^ (64 - 1) || n < -2 ^ (64 - 1)) := by
  rw [Bool.eq_iff_iff]
  simp only [Bool.not_eq_true', Bool.eq_false_iff, ne_eq, fitsInt64_iff, minInt64, maxInt64,
    Nat.pow_eq, Bool.or_eq_true, decide_eq_true_eq]
  omega

/-- A word that is held back exactly where the result leaves its range. -/
theorem map_toInt_unless {overflow : Bool} {w : BitVec 64} {n : Int}
    (leaves : overflow = !fitsInt64 n) (exact : ¬ overflow → w.toInt = n) :
    (if overflow then none else some w).map BitVec.toInt = (some n).filter fitsInt64 := by
  subst leaves
  cases fits : fitsInt64 n with
  | false => simp [Option.filter, fits]
  | true =>
    have same := exact (by simp [fits])
    simp [Option.filter, fits, same]

private theorem sdivOverflow_eq_of_tmod {v w : BitVec 64} (rest : v.toInt.tmod w.toInt = 0) :
    v.sdivOverflow w = !fitsInt64 (v.toInt.tdiv w.toInt) := by
  rw [not_fitsInt64_iff, Int.tdiv_eq_ediv_of_dvd (Int.dvd_of_tmod_eq_zero rest)]
  rfl

private theorem toInt_sdiv_of_not_sdivOverflow {v w : BitVec 64} (h : ¬ v.sdivOverflow w) :
    (v.sdiv w).toInt = v.toInt.tdiv w.toInt := by
  refine BitVec.toInt_sdiv_of_ne_or_ne v w ?_
  by_contra least
  obtain ⟨rfl, rfl⟩ := not_or.1 least |>.imp not_not.1 not_not.1
  exact h (by decide)

/-- On words the integer operations do what they do on integers. -/
theorem map_toInt_word? (op : Operation) {a b : Int} (fits : fitsInt64 a) (fits' : fitsInt64 b) :
    (op.word? (BitVec.ofInt 64 a) (BitVec.ofInt 64 b)).map BitVec.toInt = op.exact? a b := by
  have left := toInt_ofInt_of_fits fits
  have right := toInt_ofInt_of_fits fits'
  generalize BitVec.ofInt 64 a = v at left
  generalize BitVec.ofInt 64 b = w at right
  subst left right
  unfold word? Operation.exact?
  cases op with
  | add =>
    exact map_toInt_unless not_fitsInt64_iff.symm BitVec.toInt_add_of_not_saddOverflow
  | sub =>
    exact map_toInt_unless not_fitsInt64_iff.symm BitVec.toInt_sub_of_not_ssubOverflow
  | mul =>
    exact map_toInt_unless not_fitsInt64_iff.symm BitVec.toInt_mul_of_not_smulOverflow
  | div =>
    have zero : w = 0 ↔ w.toInt = 0 := by
      rw [← BitVec.toInt_inj]
      rfl
    have rest : v.srem w = 0 ↔ v.toInt.tmod w.toInt = 0 := by
      rw [← BitVec.toInt_inj, BitVec.toInt_srem]
      rfl
    dsimp only
    by_cases hno : w.toInt = 0
    · rw [if_pos (Or.inl (zero.2 hno)), if_pos (Or.inl hno)]
      rfl
    · by_cases left : v.toInt.tmod w.toInt = 0
      · rw [if_pos (rest.2 left), if_neg (not_or.2 ⟨hno, not_not.2 left⟩)]
        simp only [zero.not.2 hno, false_or]
        exact map_toInt_unless (sdivOverflow_eq_of_tmod left) toInt_sdiv_of_not_sdivOverflow
      · rw [if_neg (rest.not.2 left), if_pos (Or.inr left), ite_self]
        rfl

end Operation

private theorem decimalBits_mono {n n' : Nat} (h : n' < 2 ^ 64) (le : n ≤ n') :
    decimalBits n 0 ≤ decimalBits n' 0 := by
  by_contra more
  have less := (decimalBits_lt_iff h (by omega)).1 (not_le.1 more)
  exact less.not_ge (nearestNat_mono le)

/-- A number that is read of an integer of 64 bits: zero, or one with all its places, the last of
them not far from the point. -/
structure IsInteger (u : Float) (n : Bool) (m : Nat) (e : Int) (a : Int) : Prop where
  parts : IsFinite u n m e
  exponent_le : e ≤ 12
  places : a ≠ 0 → 0 < m ∧ m.log2 = 52 ∧ -52 ≤ e
  beq_zero : (u == 0.0) = true ↔ a = 0

private theorem exists_isInteger {x : String} {a : Int} (read : integer? x = some a) :
    ∃ u n m e, number? x = some u ∧ IsInteger u n m e a := by
  obtain ⟨u, n, m, e, read', parts, place⟩ := float?_of_int64? read
  have size : magnitude m e = decimalBits a.natAbs 0 := by
    unfold rank signed at place
    split at place <;> split at place <;> omega
  have fits := fitsInt64_iff.1 (int64?_eq_some_iff.1 read).2.2.2
  simp only [minInt64, maxInt64, Nat.pow_eq] at fits
  have top : decimalBits (2 ^ 63) 0 = 1086 * 2 ^ 52 := by decide +kernel
  have one : decimalBits 1 0 = 1023 * 2 ^ 52 := by decide +kernel
  have most := decimalBits_mono (by decide) (show a.natAbs ≤ 2 ^ 63 by omega)
  have least (hne : a ≠ 0) := decimalBits_mono (by omega) (show 1 ≤ a.natAbs by omega)
  have significand := parts.significand
  have lt := significand.lt
  have normal := significand.normal
  have exact : magnitude m e = (e + 1074).toNat * 2 ^ 52 + m := rfl
  have whole (hne : a ≠ 0) : 2 ^ 52 ≤ m := by
    have := least hne
    omega
  refine ⟨u, n, m, e, read', parts, by omega, fun hne ↦ ?_, ?_⟩
  · have low := least hne
    exact ⟨Nat.lt_of_lt_of_le (by decide) (whole hne), log2_eq (whole hne) lt, by omega⟩
  · have nothing : rank false 0 (-1074) = 0 := rfl
    rw [parts.beq_iff_rank isFinite_zero, place, nothing]
    by_cases zero : a = 0
    · subst zero
      decide
    · have low := least zero
      refine iff_of_false ?_ zero
      unfold signed
      split <;> omega

/-- Of integers every operation has a result that is a finite number, but for a division by zero. -/
theorem floating?_integers {u v : Float} {n n' : Bool} {m m' : Nat} {e e' a b : Int}
    (h : IsInteger u n m e a) (h' : IsInteger v n' m' e' b) (op : Operation) :
    (op = .div ∧ b = 0 ∧ op.floating? u v = none) ∨
      (¬ (op = .div ∧ b = 0)) ∧ ∃ r, op.floating? u v = some r ∧ r.isFinite := by
  have places := h.parts.significand.log2_le
  have places' := h'.parts.significand.log2_le
  have exponent := h.exponent_le
  have exponent' := h'.exponent_le
  cases op with
  | add => exact .inr ⟨by simp, _, rfl, h.parts.isFinite_add h'.parts (by omega) (by omega)⟩
  | sub => exact .inr ⟨by simp, _, rfl, h.parts.isFinite_sub h'.parts (by omega) (by omega)⟩
  | mul => exact .inr ⟨by simp, _, rfl, h.parts.isFinite_mul h'.parts (by omega) (by omega)⟩
  | div =>
    by_cases zero : b = 0
    · exact .inl ⟨rfl, zero, if_pos (h'.beq_zero.2 zero)⟩
    · obtain ⟨hne, all, least⟩ := h'.places zero
      exact .inr ⟨by simp [zero], _, if_neg (h'.beq_zero.not.2 zero),
        h.parts.isFinite_div h'.parts hne (by omega)⟩

/-- The element of an integer is its decimal text. -/
theorem ofInt_eq_toString (n : Int) : Value.ofInt n = .element (toString n) := by
  refine congrArg Value.element ?_
  unfold intDigits natDigits
  cases n with
  | ofNat n => rfl
  | negSucc n =>
    rw [if_pos (Int.negSucc_lt_zero n), String.ofList_cons]
    rfl

/-- Of two texts that are integers each operation has its exact result wherever this is an integer
of 64 bits, computed on words without a step that overflows. Otherwise the result is that of
floating numbers, which is finite; none there is only for a division by zero. -/
theorem arithmetic?_integers {x y : String} {a b : Int} (left : integer? x = some a)
    (right : integer? y = some b) (op : Operation) :
    (∀ n : Int, op.rational? a b = some (n : ℚ) → fitsInt64 n →
      arithmetic? op x y = some (.element (toString n)) ∧
        (op.word? (.ofInt 64 a) (.ofInt 64 b)).map BitVec.toInt = some n) ∧
    ((∀ n : Int, op.rational? a b = some (n : ℚ) → ¬ fitsInt64 n) →
      op.word? (.ofInt 64 a) (.ofInt 64 b) = none ∧ (¬ (op = .div ∧ b = 0) →
        ∃ u v r, number? x = some u ∧ number? y = some v ∧ op.floating? u v = some r ∧
          r.isFinite ∧ arithmetic? op x y = some (.ofFloat r))) ∧
    (arithmetic? op x y = none ↔ op = .div ∧ b = 0) := by
  obtain ⟨u, k, m, e, read, number⟩ := exists_isInteger left
  obtain ⟨v, k', m', e', read', number'⟩ := exists_isInteger right
  have fits := (int64?_eq_some_iff.1 left).2.2.2
  have fits' := (int64?_eq_some_iff.1 right).2.2.2
  have words := op.map_toInt_word? fits fits'
  have exact_of {n : Int} (found : op.exact? a b = some n) :
      arithmetic? op x y = some (.element (toString n)) := by
    simp [arithmetic?, left, right, found, ofInt_eq_toString]
  have floating_of (absent : op.exact? a b = none) : arithmetic? op x y =
      (op.floating? u v).bind fun r ↦ if r.isFinite then some (.ofFloat r) else none := by
    simp [arithmetic?, left, right, absent, read, read', bind]
  refine ⟨fun n fraction fits ↦ ?_, fun leaves ↦ ?_, ?_⟩
  · have found := op.exact_eq_some_iff.2 ⟨fraction, fits⟩
    exact ⟨exact_of found, words.trans found⟩
  · have absent : op.exact? a b = none := by
      rw [Option.eq_none_iff_forall_ne_some]
      intro n found
      obtain ⟨fraction, fits⟩ := op.exact_eq_some_iff.1 found
      exact leaves n fraction fits
    rw [absent, Option.map_eq_none_iff] at words
    refine ⟨words, fun divides ↦ ?_⟩
    rcases floating?_integers number number' op with ⟨div, zero, -⟩ | ⟨-, r, value, finite⟩
    · exact absurd ⟨div, zero⟩ divides
    · refine ⟨u, v, r, read, read', value, finite, ?_⟩
      rw [floating_of absent, value, Option.bind_some, if_pos finite]
  · rcases floating?_integers number number' op with ⟨rfl, rfl, hno⟩ | ⟨hne, r, value, finite⟩
    · exact iff_of_true (by rw [floating_of rfl, hno, Option.bind_none]) ⟨rfl, rfl⟩
    · refine iff_of_false ?_ hne
      cases result : op.exact? a b with
      | some n => simp [exact_of result]
      | none => simp [floating_of result, value, finite]

/-- The least integer by minus one leaves the range by one and continues as a floating number; a
product next to the end of the range is exact, and nothing is divided by zero. -/
theorem arithmetic?_integers_edges :
    arithmetic? .div "-9223372036854775808" " -1\n" = some (.element "9223372036854776000") ∧
      Operation.div.word? (.ofInt 64 (-9223372036854775808)) (.ofInt 64 (-1)) = none ∧
      arithmetic? .mul "3037000500" "+3037000499" = some (.element "9223372033963249500") ∧
      arithmetic? .div "7" "0" = none := by
  have least : integer? "-9223372036854775808" = some (-9223372036854775808) := by decide +kernel
  have minus : integer? " -1\n" = some (-1) := by decide +kernel
  obtain ⟨-, leaves, -⟩ := arithmetic?_integers least minus .div
  obtain ⟨words, floating⟩ := leaves fun n fraction fits ↦
    Option.some_ne_none n ((Operation.exact_eq_some_iff _).2 ⟨fraction, fits⟩).symm
  obtain ⟨u, v, r, read, read', value, -, result⟩ := floating (by decide)
  have text : ((number? "-9223372036854775808").bind fun u ↦ (number? " -1\n").bind fun v ↦
      Operation.div.floating? u v).map floatText = some "9223372036854776000" := by decide +kernel
  rw [read, Option.bind_some, read', Option.bind_some, value, Option.map_some,
    Option.some.injEq] at text
  rw [Value.ofFloat, text] at result
  have product := (arithmetic?_integers (a := 3037000500) (b := 3037000499) (x := "3037000500")
    (y := "+3037000499") (by decide +kernel) (by decide +kernel) .mul).1 9223372033963249500
    (by norm_num [Operation.rational?]) (by decide)
  have zero := (arithmetic?_integers (a := 7) (b := 0) (x := "7") (y := "0") (by decide +kernel)
    (by decide +kernel) .div).2.2.2 ⟨rfl, rfl⟩
  exact ⟨result, words, product.1, zero⟩

end TextTags.Element
