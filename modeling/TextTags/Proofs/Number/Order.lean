import TextTags.Proofs.Limit
import TextTags.Proofs.Number.Integer

/-!
# The order of numbers

Finite numbers are ordered by their bits. An integer that is read as a number is rounded to 53
binary places: the order of integers is kept, but those that are rounded to the same become equal.
-/

namespace TextTags.Number

open Text Float.Model UnpackedFloat

/-- The place of a finite number in the order of numbers: its bits without the sign, counted down
from zero for negative numbers. -/
def rank (negative : Bool) (m : Nat) (e : Int) : Int := signed negative (magnitude m e)

private theorem compare_natCast (a b : Nat) : compare (a : Int) b = compare a b := by
  rcases Nat.lt_trichotomy a b with less | rfl | greater
  · rw [Nat.compare_eq_lt.2 less, Int.compare_eq_lt.2 (by omega)]
  · rw [Nat.compare_eq_eq.2 rfl, Int.compare_eq_eq.2 rfl]
  · rw [Nat.compare_eq_gt.2 greater, Int.compare_eq_gt.2 (by omega)]

private theorem compare_neg_natCast (a b : Nat) : compare (-a : Int) (-b) = (compare a b).swap := by
  rcases Nat.lt_trichotomy a b with less | rfl | greater
  · rw [Nat.compare_eq_lt.2 less, Int.compare_eq_gt.2 (by omega)]
    rfl
  · rw [Nat.compare_eq_eq.2 rfl, Int.compare_eq_eq.2 rfl]
    rfl
  · rw [Nat.compare_eq_gt.2 greater, Int.compare_eq_lt.2 (by omega)]
    rfl

/-- Significands are normal wherever they can be, so that the greater exponent goes with the greater
number. -/
theorem compare_magnitude {m m' : Nat} {e e' : Int} (h : IsSignificand m e)
    (h' : IsSignificand m' e') :
    compare (magnitude m e) (magnitude m' e') = (compare e e').then (compare m m') := by
  have lt := h.lt
  have lt' := h'.lt
  have least := h.least
  have least' := h'.least
  have normal := h.normal
  have normal' := h'.normal
  unfold magnitude
  rcases Int.lt_trichotomy e e' with less | rfl | greater
  · rw [Int.compare_eq_lt.2 less, Nat.compare_eq_lt.2 (by omega)]
    rfl
  · rw [Int.compare_eq_eq.2 rfl]
    rcases Nat.lt_trichotomy m m' with less | rfl | greater
    · rw [Nat.compare_eq_lt.2 less, Nat.compare_eq_lt.2 (by omega)]
      rfl
    · rw [Nat.compare_eq_eq.2 rfl, Nat.compare_eq_eq.2 rfl]
      rfl
    · rw [Nat.compare_eq_gt.2 greater, Nat.compare_eq_gt.2 (by omega)]
      rfl
  · rw [Int.compare_eq_gt.2 greater, Nat.compare_eq_gt.2 (by omega)]
    rfl

/-- A significand that is not zero has a positive magnitude. -/
theorem magnitude_pos {m : Nat} (h : 0 < m) (e : Int) : 0 < magnitude m e := by
  unfold magnitude
  omega

private theorem magnitude_zero {m : Nat} {e : Int} (h : IsSignificand m e) (zero : ¬ 0 < m) :
    magnitude m e = 0 := by
  have least := h.normal.resolve_left (by omega)
  unfold magnitude
  omega

private theorem compare_unpacked (n n' : Bool) {m m' : Nat} {e e' : Int} (h : IsSignificand m e)
    (h' : IsSignificand m' e') :
    (unpacked (signOf n) m e).compare (unpacked (signOf n') m' e') =
      some (compare (rank n m e) (rank n' m' e')) := by
  have order := compare_magnitude h h'
  unfold unpacked rank
  split
  · next pos =>
    have above := magnitude_pos pos e
    split
    · next pos' =>
      have above' := magnitude_pos pos' e'
      cases n <;> cases n' <;>
        simp only [signOf, signed, UnpackedFloat.compare, Bool.false_eq_true, if_true, if_false]
      · rw [compare_natCast, order]
      · rw [Int.compare_eq_gt.2 (by omega)]
      · rw [Int.compare_eq_lt.2 (by omega)]
      · rw [compare_neg_natCast, order]
    · next zero =>
      have hno : signed n' (magnitude m' e') = 0 := by
        cases n' <;> simp [signed, magnitude_zero h' zero]
      rw [hno]
      cases n <;>
        simp only [signOf, signed, UnpackedFloat.compare, Bool.false_eq_true, if_true, if_false]
      · rw [Int.compare_eq_gt.2 (by omega)]
      · rw [Int.compare_eq_lt.2 (by omega)]
  · next zero =>
    have hno : signed n (magnitude m e) = 0 := by
      cases n <;> simp [signed, magnitude_zero h zero]
    rw [hno]
    split
    · next pos' =>
      have above' := magnitude_pos pos' e'
      cases n' <;>
        simp only [signOf, signed, UnpackedFloat.compare, Bool.false_eq_true, if_true, if_false]
      · rw [Int.compare_eq_lt.2 (by omega)]
      · rw [Int.compare_eq_gt.2 (by omega)]
    · next zero' =>
      have hno' : signed n' (magnitude m' e') = 0 := by
        cases n' <;> simp [signed, magnitude_zero h' zero']
      rw [hno', Int.compare_eq_eq.2 rfl]
      rfl

namespace IsFinite

variable {x y : Float} {n n' : Bool} {m m' : Nat} {e e' : Int}

/-- Finite numbers are ordered by their ranks. -/
theorem lt_iff_rank (h : IsFinite x n m e) (h' : IsFinite y n' m' e') :
    x < y ↔ rank n m e < rank n' m' e' := by
  rw [lt_iff, h.unpack, h'.unpack, UnpackedFloat.lt,
    compare_unpacked n n' h.significand h'.significand, ← Int.compare_eq_lt]
  simp

/-- Finite numbers are equal where their ranks are. -/
theorem beq_iff_rank (h : IsFinite x n m e) (h' : IsFinite y n' m' e') :
    (x == y) = true ↔ rank n m e = rank n' m' e' := by
  have beq : (x == y) = x.toModel.unpack.beq y.toModel.unpack := rfl
  rw [beq, h.unpack, h'.unpack, UnpackedFloat.beq,
    compare_unpacked n n' h.significand h'.significand, ← Int.compare_eq_eq]
  simp

end IsFinite

/-- Numbers of the format without their signs are in the order of their values. -/
theorem magnitude_lt_iff {m m' : Nat} {e e' : Int} (h : IsSignificand m e)
    (h' : IsSignificand m' e') :
    magnitude m e < magnitude m' e' ↔ (m : ℚ) * 2 ^ e < m' * 2 ^ e' := by
  have below {m m' : Nat} {e e' : Int} (h : IsSignificand m e) (h' : IsSignificand m' e')
      (less : e < e') : magnitude m e < magnitude m' e' ∧ (m : ℚ) * 2 ^ e < m' * 2 ^ e' := by
    have lt := h.lt
    have least := h.least
    have normal : 2 ^ 52 ≤ m' := h'.normal.resolve_right (by omega)
    refine ⟨by unfold magnitude; omega, ?_⟩
    have small : (m : ℚ) < 2 ^ 53 := by exact_mod_cast lt
    have large : (2 ^ 52 : ℚ) ≤ m' := by exact_mod_cast normal
    calc (m : ℚ) * 2 ^ e < 2 ^ 53 * 2 ^ e := by gcongr
      _ = 2 ^ 52 * 2 ^ (e + 1) := by rw [zpow_add₀ (by norm_num)]; ring
      _ ≤ m' * 2 ^ e' := by
        gcongr
        · norm_num
        · omega
  rcases Int.lt_trichotomy e e' with less | rfl | greater
  · exact iff_of_true (below h h' less).1 (below h h' less).2
  · have value : (m : ℚ) * 2 ^ e < m' * 2 ^ e ↔ m < m' := by
      rw [mul_lt_mul_iff_of_pos_right (by positivity)]
      exact_mod_cast Iff.rfl
    rw [value]
    unfold magnitude
    omega
  · exact iff_of_false (below h' h greater).1.not_gt (below h' h greater).2.not_gt

/-! ## Integers -/

/-- A natural number rounded to 53 binary places, a half going to the even neighbour. -/
def nearestNat (n : Nat) : Nat :=
  let unit := 2 ^ (n.log2 - 52)
  roundHalfEven n unit * unit

/-- An integer rounded to 53 binary places, a half going to the even neighbour. -/
def nearest (n : Int) : Int := signed (n < 0) (nearestNat n.natAbs)

private theorem roundHalfEven_one (n : Nat) : roundHalfEven n 1 = n := by
  simp [roundHalfEven, Nat.mod_one]

/-- Up to 53 places nothing is rounded. -/
theorem nearestNat_of_lt {n : Nat} (h : n < 2 ^ 53) : nearestNat n = n := by
  have short : n.log2 - 52 = 0 := by
    rcases Nat.eq_zero_or_pos n with rfl | pos
    · decide
    · have := (Nat.log2_lt pos.ne').2 h
      omega
  simp [nearestNat, short, roundHalfEven_one]

private theorem decimalBits_zero (n : Nat) (h : n < 2 ^ 64) (pos : 0 < n) :
    decimalBits n 0 = magnitudeBits n 1 := by
  have short : (natDigits n).length ≤ 20 :=
    (Nat.length_toDigits_le_iff (b := 10) (by omega) (by omega)).2 (by omega)
  rw [decimalBits_eq pos, if_neg (by omega), if_neg (by omega)]
  simp [decimalQuotient]

/-- Rounding gives at least the whole part. -/
theorem le_roundHalfEven (num den : Nat) : num / den ≤ roundHalfEven num den := by
  unfold roundHalfEven
  dsimp only
  split
  · omega
  · split <;> omega

/-- In units of its last place a number of more than 53 places has 53 of them. -/
theorem roundHalfEven_bounds {n k : Nat} (low : 2 ^ (52 + k) ≤ n) (high : n < 2 ^ (53 + k)) :
    2 ^ 52 ≤ roundHalfEven n (2 ^ k) ∧ roundHalfEven n (2 ^ k) ≤ 2 ^ 53 := by
  have least : 2 ^ 52 ≤ n / 2 ^ k :=
    (Nat.le_div_iff_mul_le (Nat.two_pow_pos k)).2 (by rwa [← Nat.pow_add])
  have most : n / 2 ^ k < 2 ^ 53 :=
    (Nat.div_lt_iff_lt_mul (Nat.two_pow_pos k)).2 (by rwa [← Nat.pow_add])
  exact ⟨least.trans (le_roundHalfEven _ _), (roundHalfEven_le _ _).trans most⟩

private theorem magnitudeBits_long {n k : Nat} (log : n.log2 = 52 + k) (pos : 0 < n)
    (short : k ≤ 900) :
    magnitudeBits n 1 = (k + 1074) * 2 ^ 52 + roundHalfEven n (2 ^ k) := by
  have low : 2 ^ (52 + k) ≤ n := log ▸ Nat.log2_self_le pos.ne'
  have high : n < 2 ^ (53 + k) := by
    have := Nat.lt_log2_self (n := n)
    rwa [log, Nat.add_right_comm] at this
  have bounds := roundHalfEven_bounds low high
  have unit : unitExponent n 1 = k := by
    have value : ratio n 1 = n * 2 ^ (0 : Int) := by simp [ratio]
    rw [unitExponent_eq pos (by decide), value, log_significand pos, log]
    omega
  have scaled : scaleDown n 1 k = (n, 2 ^ k) := by
    simp [scaleDown]
  unfold magnitudeBits
  simp only [unit, scaled, infinityBits, Nat.pow_eq]
  omega

/-- The number that a natural number is read as is the rounded one. -/
theorem exists_significand {n : Nat} (h : n < 2 ^ 64) (pos : 0 < n) :
    ∃ m e, IsSignificand m e ∧ 0 < m ∧ decimalBits n 0 = magnitude m e ∧
      (nearestNat n : ℚ) = m * 2 ^ e := by
  have low := Nat.log2_self_le pos.ne'
  have high := Nat.lt_log2_self (n := n)
  have small := (Nat.log2_lt pos.ne').2 h
  -- Below `2 ^ 53` the number is exact and only shifted. From there on it is rounded, and where
  -- that carries into a place more, what comes out is a power of two.
  rcases Nat.lt_or_ge n (2 ^ 53) with short | long
  · have log := (Nat.log2_lt pos.ne').2 short
    obtain ⟨k, places⟩ : ∃ k, n.log2 + k = 52 := ⟨52 - n.log2, by omega⟩
    have value : (n : ℚ) * 10 ^ (0 : Int) = (n * 2 ^ k : Nat) * 2 ^ (-k : Int) := by
      push_cast
      rw [zpow_neg, zpow_natCast]
      field_simp
    have least : 2 ^ 52 ≤ n * 2 ^ k := by
      rw [← places, Nat.pow_add]
      exact Nat.mul_le_mul_right _ low
    have most : n * 2 ^ k < 2 ^ 53 := by
      have : 2 ^ 53 = 2 ^ (n.log2 + 1) * 2 ^ k := by
        rw [← Nat.pow_add]
        congr 1
        omega
      rw [this]
      exact Nat.mul_lt_mul_of_pos_right high (Nat.two_pow_pos k)
    have significand : IsSignificand (n * 2 ^ k) (-k) := ⟨most, by omega, by omega, .inl least⟩
    refine ⟨_, _, significand, by omega, decimalBits_exact significand (by omega) value, ?_⟩
    rw [nearestNat_of_lt short, ← value]
    simp
  · have log : 53 ≤ n.log2 := (Nat.le_log2 pos.ne').2 long
    obtain ⟨k, places⟩ : ∃ k, n.log2 = 52 + k := Nat.exists_eq_add_of_le (by omega)
    have bits := magnitudeBits_long places pos (by omega)
    have near : nearestNat n = roundHalfEven n (2 ^ k) * 2 ^ k := by
      unfold nearestNat
      rw [places, Nat.add_sub_cancel_left]
    rw [places] at low high
    obtain ⟨least, most⟩ := roundHalfEven_bounds low (Nat.add_right_comm 52 k 1 ▸ high)
    rw [decimalBits_zero n h pos, bits, near]
    rcases Nat.lt_or_eq_of_le most with fits | carry
    · refine ⟨roundHalfEven n (2 ^ k), k, ⟨fits, by omega, by omega, .inl least⟩, by omega, ?_, ?_⟩
      · unfold magnitude
        omega
      · push_cast
        rw [zpow_natCast]
    · refine ⟨2 ^ 52, k + 1, ⟨by decide, by omega, by omega, .inl (Nat.le_refl _)⟩, by decide,
        ?_, ?_⟩
      · unfold magnitude
        omega
      · rw [carry, zpow_add₀ (by norm_num), zpow_natCast]
        push_cast
        ring

private theorem decimalBits_pos {n : Nat} (h : n < 2 ^ 64) (pos : 0 < n) :
    0 < decimalBits n 0 ∧ 0 < nearestNat n := by
  obtain ⟨m, e, -, hne, bits, value⟩ := exists_significand h pos
  have : (0 : ℚ) < nearestNat n := by
    rw [value]
    positivity
  exact ⟨bits ▸ magnitude_pos hne e, by exact_mod_cast this⟩

/-- Natural numbers are read in the order of the rounded ones. -/
theorem decimalBits_lt_iff {n n' : Nat} (h : n < 2 ^ 64) (h' : n' < 2 ^ 64) :
    decimalBits n 0 < decimalBits n' 0 ↔ nearestNat n < nearestNat n' := by
  have zero : decimalBits 0 0 = 0 ∧ nearestNat 0 = 0 := ⟨rfl, nearestNat_of_lt (by decide)⟩
  rcases Nat.eq_zero_or_pos n with rfl | pos <;> rcases Nat.eq_zero_or_pos n' with rfl | pos'
  · rw [zero.1, zero.2]
  · rw [zero.1, zero.2]
    exact iff_of_true (decimalBits_pos h' pos').1 (decimalBits_pos h' pos').2
  · rw [zero.1, zero.2]
    simp
  · obtain ⟨m, e, significand, -, bits, value⟩ := exists_significand h pos
    obtain ⟨m', e', significand', -, bits', value'⟩ := exists_significand h' pos'
    rw [bits, bits', magnitude_lt_iff significand significand', ← value, ← value']
    exact_mod_cast Iff.rfl

/-- Integers are read in the order of the rounded ones. -/
theorem signed_decimalBits_lt_iff {n n' : Int} (h : n.natAbs < 2 ^ 64) (h' : n'.natAbs < 2 ^ 64) :
    signed (n < 0) (decimalBits n.natAbs 0) < signed (n' < 0) (decimalBits n'.natAbs 0) ↔
      nearest n < nearest n' := by
  have up := decimalBits_lt_iff h h'
  have down := decimalBits_lt_iff h' h
  have hne := decimalBits_pos h
  have hne' := decimalBits_pos h'
  unfold nearest signed
  by_cases negative : n < 0 <;> by_cases negative' : n' < 0 <;>
    simp only [negative, negative', decide_true, decide_false, if_true, Bool.false_eq_true,
      if_false]
  · omega
  · omega
  · omega
  · omega

/-- No finite number reaches infinity. -/
theorem magnitude_lt {m : Nat} {e : Int} (h : IsSignificand m e) :
    magnitude m e < infinityBits := by
  have lt := h.lt
  have greatest := h.greatest
  simp only [magnitude, infinityBits, Nat.pow_eq]
  omega

/-- The parts of a finite number given by its sign and its other bits. -/
theorem exists_isFinite_ofMagnitudeBits (negative : Bool) {bits : Nat} (h : bits < infinityBits) :
    ∃ m e, IsFinite (ofMagnitudeBits negative bits) negative m e ∧ magnitude m e = bits := by
  obtain ⟨negative', m, e, parts⟩ := exists_isFinite (isFinite_ofMagnitudeBits negative h)
  have bound : bits < 2047 * 2 ^ 52 := h
  have bound' : magnitude m e < 2047 * 2 ^ 52 := magnitude_lt parts.significand
  have same : (UInt64.ofNat ((if negative then Nat.pow 2 63 else 0) + bits)).toNat =
      (if negative then 2 ^ 63 else 0) + bits := by
    apply UInt64.toNat_ofNat_of_lt'
    simp only [UInt64.size, Nat.pow_eq]
    split <;> omega
  have whole : (ofMagnitudeBits negative bits).toBits.toNat =
      (if negative then 2 ^ 63 else 0) + bits := by
    rw [ofMagnitudeBits, toBits_ofBits (by rw [same]; split <;> omega), same]
  rw [parts.bits, finiteBits] at whole
  obtain rfl : negative' = negative := by
    cases negative <;> cases negative' <;> simp at whole ⊢ <;> omega
  exact ⟨m, e, parts, by omega⟩

private theorem natAbs_lt_of_fitsInt64 {n : Int} (h : fitsInt64 n) : n.natAbs < 2 ^ 64 := by
  rw [fitsInt64_iff, minInt64, maxInt64] at h
  simp only [Nat.pow_eq] at h
  omega

/-- A sign that may be missing and digits stand for a whole number. -/
theorem float?_run {cs digits : List Char} {negative : Bool}
    (sign : takeSign cs = (negative, digits))
    (hne : digits ≠ []) (h : ∀ c ∈ digits, isAsciiDigit c) :
    float? cs = .some (ofDecimal negative (digitsValue digits) 0) := by
  have whole := takeWhile_digits h [] (by simp)
  simp only [List.append_nil] at whole
  simp [float?, numeral?, sign, whole.1, whole.2, takeFraction, exponent?, hne, Numeral.value,
    signed, digitsValue]

private theorem decimalBits_lt_infinityBits {n : Nat} (h : n < 2 ^ 64) :
    decimalBits n 0 < infinityBits := by
  rcases Nat.eq_zero_or_pos n with rfl | pos
  · decide
  · obtain ⟨m, e, significand, -, bits, -⟩ := exists_significand h pos
    exact bits ▸ magnitude_lt significand

/-- What is read as an integer is read as a number as well, with the bits of the integer. -/
theorem float?_of_int64? {cs : List Char} {n : Int} (h : int64? cs = some n) :
    ∃ x negative m e, float? cs = some x ∧ IsFinite x negative m e ∧
      rank negative m e = signed (n < 0) (decimalBits n.natAbs 0) := by
  obtain ⟨hne, digits, value, fits⟩ := int64?_eq_some_iff.1 h
  obtain ⟨⟨negative, run⟩, sign⟩ : ∃ parts, takeSign cs = parts := ⟨_, rfl⟩
  simp only [sign, signed] at hne digits value
  have size : digitsValue run = n.natAbs := by
    split at value <;> omega
  have read := float?_run sign hne digits
  rw [ofDecimal_eq, size] at read
  obtain ⟨m, e, finite, bits⟩ := exists_isFinite_ofMagnitudeBits negative
    (decimalBits_lt_infinityBits (natAbs_lt_of_fitsInt64 fits))
  refine ⟨_, negative, m, e, read, finite, ?_⟩
  rw [rank, bits]
  rcases Int.lt_trichotomy n 0 with below | rfl | above
  · obtain rfl : negative = true := by
      by_contra plus
      rw [if_neg plus] at value
      omega
    simp [below]
  · cases negative <;> rfl
  · obtain rfl : negative = false := by
      by_contra minus
      rw [if_pos (by simpa using minus)] at value
      omega
    rw [decide_eq_false (by omega)]

/-- What is read as integers is compared as numbers in the order of integers rounded to 53
places. -/
theorem float?_order {cs ds : List Char} {a b : Int} (h : int64? cs = some a)
    (h' : int64? ds = some b) :
    ∃ x y, float? cs = some x ∧ float? ds = some y ∧ (x < y ↔ nearest a < nearest b) ∧
      (y < x ↔ nearest b < nearest a) ∧ ((x == y) = true ↔ nearest a = nearest b) := by
  obtain ⟨x, n, m, e, read, finite, place⟩ := float?_of_int64? h
  obtain ⟨y, n', m', e', read', finite', place'⟩ := float?_of_int64? h'
  have small := natAbs_lt_of_fitsInt64 (int64?_eq_some_iff.1 h).2.2.2
  have small' := natAbs_lt_of_fitsInt64 (int64?_eq_some_iff.1 h').2.2.2
  have less := signed_decimalBits_lt_iff small small'
  have more := signed_decimalBits_lt_iff small' small
  refine ⟨x, y, read, read', ?_, ?_, ?_⟩
  · rw [finite.lt_iff_rank finite', place, place', less]
  · rw [finite'.lt_iff_rank finite, place, place', more]
  · rw [finite.beq_iff_rank finite', place, place']
    omega

/-! ## Rounded integers -/

private theorem roundHalfEven_mono {num num' : Nat} (den : Nat) (le : num ≤ num') :
    roundHalfEven num den ≤ roundHalfEven num' den := by
  rcases Nat.lt_or_eq_of_le (Nat.div_le_div_right (c := den) le) with less | same
  · exact (roundHalfEven_le num den).trans (Nat.le_trans less (le_roundHalfEven num' den))
  · have parts := Nat.div_add_mod num den
    have parts' := Nat.div_add_mod num' den
    rw [← same] at parts'
    unfold roundHalfEven
    dsimp only
    rw [← same]
    repeat' split
    all_goals omega

private theorem nearestNat_bounds {n : Nat} (pos : 0 < n) :
    2 ^ n.log2 ≤ nearestNat n ∧ nearestNat n ≤ 2 ^ (n.log2 + 1) := by
  have low := Nat.log2_self_le pos.ne'
  have high := Nat.lt_log2_self (n := n)
  rcases Nat.lt_or_ge n (2 ^ 53) with short | long
  · rw [nearestNat_of_lt short]
    exact ⟨low, high.le⟩
  · have log : 53 ≤ n.log2 := (Nat.le_log2 pos.ne').2 long
    obtain ⟨k, places⟩ : ∃ k, n.log2 = 52 + k := Nat.exists_eq_add_of_le (by omega)
    rw [places] at low high ⊢
    obtain ⟨least, most⟩ := roundHalfEven_bounds low (Nat.add_right_comm 52 k 1 ▸ high)
    unfold nearestNat
    rw [places, Nat.add_sub_cancel_left, Nat.add_right_comm, Nat.pow_add, Nat.pow_add]
    exact ⟨Nat.mul_le_mul_right _ least, Nat.mul_le_mul_right _ most⟩

/-- Rounding keeps the order of natural numbers, but not that they differ. -/
theorem nearestNat_mono {n n' : Nat} (le : n ≤ n') : nearestNat n ≤ nearestNat n' := by
  rcases Nat.eq_zero_or_pos n with rfl | pos
  · exact (nearestNat_of_lt (by decide)).trans_le (Nat.zero_le _)
  · have logs : n.log2 ≤ n'.log2 :=
      (Nat.le_log2 (by omega)).2 ((Nat.log2_self_le pos.ne').trans le)
    rcases Nat.lt_or_eq_of_le logs with less | same
    · calc nearestNat n ≤ 2 ^ (n.log2 + 1) := (nearestNat_bounds pos).2
        _ ≤ 2 ^ n'.log2 := Nat.pow_le_pow_right (by decide) less
        _ ≤ nearestNat n' := (nearestNat_bounds (by omega)).1
    · unfold nearestNat
      rw [same]
      exact Nat.mul_le_mul_right _ (roundHalfEven_mono _ le)

private theorem nearest_mono {a b : Int} (le : a ≤ b) : nearest a ≤ nearest b := by
  have up (positive : 0 ≤ a) := nearestNat_mono (show a.natAbs ≤ b.natAbs by omega)
  have down (negative : b ≤ 0) := nearestNat_mono (show b.natAbs ≤ a.natAbs by omega)
  unfold nearest signed
  by_cases negative : a < 0 <;> by_cases negative' : b < 0 <;>
    simp only [negative, negative', decide_true, decide_false, if_true, Bool.false_eq_true,
      if_false]
  all_goals omega

/-- Whether two integers are told apart after rounding, if they differ. -/
def Apart (a b : Int) : Prop := nearest a = nearest b → a = b

instance (a b : Int) : Decidable (Apart a b) :=
  inferInstanceAs (Decidable (nearest a = nearest b → a = b))

/-- Integers that are told apart are equal where they are rounded to the same. -/
theorem Apart.eq_iff {a b : Int} (h : Apart a b) : nearest a = nearest b ↔ a = b :=
  ⟨h, congrArg nearest⟩

/-- Being told apart is symmetric. -/
theorem Apart.symm {a b : Int} (h : Apart a b) : Apart b a := fun same ↦ (h same.symm).symm

/-- Integers that are told apart are ordered as they are rounded. -/
theorem Apart.lt_iff {a b : Int} (h : Apart a b) : nearest a < nearest b ↔ a < b := by
  constructor
  · intro less
    by_contra ge
    have := nearest_mono (not_lt.1 ge)
    omega
  · intro less
    have le := nearest_mono less.le
    have ne := mt h less.ne
    omega

end TextTags.Number
