import TextTags.Proofs.Number.Order

/-!
# Products and quotients

The product and the quotient of two finite numbers are rounded from their exact values: in units of
the last place they are a quotient of natural numbers, and the significand is this quotient rounded
to a whole number, a half going to the even neighbour.
-/

namespace TextTags.Number

open Float.Model UnpackedFloat

/-- The whole part of a quotient, with what rounding has to know of the rest. -/
def extended (num den : Nat) : ExtendedMantissa :=
  .ofMantissaAndAccuracy (num / den) (accuracyOfFraction (num % den) den)

variable {num den : Nat}

/-- The round bit says that the rest is at least a half, the sticky bit that it is neither a half
nor nothing. -/
theorem extended_eq (hd : 0 < den) : extended num den =
    ⟨num / den, decide (den ≤ 2 * (num % den)),
      decide (num % den ≠ 0 ∧ 2 * (num % den) ≠ den)⟩ := by
  unfold extended accuracyOfFraction
  by_cases exact : num % den = 0
  · rw [if_pos exact, exact]
    simp [ExtendedMantissa.ofMantissaAndAccuracy, Nat.ne_of_gt hd]
  · rw [if_neg exact]
    rcases Nat.lt_trichotomy (2 * (num % den)) den with less | half | more
    · rw [Nat.compare_eq_lt.2 less]
      simp [ExtendedMantissa.ofMantissaAndAccuracy, exact, less, less.ne]
    · rw [Nat.compare_eq_eq.2 half]
      simp [ExtendedMantissa.ofMantissaAndAccuracy, half]
    · rw [Nat.compare_eq_gt.2 more]
      simp [ExtendedMantissa.ofMantissaAndAccuracy, exact, more.le, more.ne']

private theorem shiftRightOne_extended (hd : 0 < den) :
    (extended num den).shiftRightOne = extended num (den * 2) := by
  have rest := Nat.mod_mul (x := num) (a := den) (b := 2)
  have small := Nat.mod_lt num hd
  rw [extended_eq hd, extended_eq (Nat.mul_pos hd (by decide)), ExtendedMantissa.shiftRightOne,
    rest, ← Nat.div_div_eq_div_mul]
  generalize num % den = r at *
  congr 1
  · rw [Bool.eq_iff_iff, bne_iff_ne, decide_eq_true_iff]
    rcases Nat.mod_two_eq_zero_or_one (num / den) with even | odd
    · rw [even]
      omega
    · rw [odd]
      omega
  · rw [Bool.eq_iff_iff, Bool.or_eq_true, decide_eq_true_iff, decide_eq_true_iff,
      decide_eq_true_iff]
    rcases Nat.mod_two_eq_zero_or_one (num / den) with even | odd
    · rw [even]
      omega
    · rw [odd]
      omega

private theorem shiftRight_extended (hd : 0 < den) (k : Nat) :
    extended num den >>> k = extended num (den * 2 ^ k) := by
  induction k with
  | zero => simp [HShiftRight.hShiftRight, Nat.repeat]
  | succ k ih =>
    change (extended num den >>> k).shiftRightOne = _
    rw [ih, shiftRightOne_extended (Nat.mul_pos hd (Nat.two_pow_pos k)), Nat.pow_succ,
      Nat.mul_assoc]

private theorem roundedMantissa_extended (hd : 0 < den) :
    (extended num den).roundedMantissa = roundHalfEven num den := by
  rw [extended_eq hd, ExtendedMantissa.roundedMantissa, roundHalfEven]
  dsimp only
  rcases Nat.lt_trichotomy (2 * (num % den)) den with less | half | more
  · rw [if_pos less, decide_eq_false (not_le.2 less)]
    cases decide (num % den ≠ 0 ∧ 2 * (num % den) ≠ den) <;> rfl
  · rw [if_neg half.not_lt, if_pos half, decide_eq_true half.ge,
      decide_eq_false fun rest ↦ rest.2 half]
    rfl
  · rw [if_neg more.not_gt, if_neg more.ne', decide_eq_true more.le,
      decide_eq_true ⟨by omega, more.ne'⟩]
    rfl

/-- A significand and its exponent are told by the magnitude. -/
theorem eq_of_magnitude_eq {m m' : Nat} {e e' : Int} (h : IsSignificand m e)
    (h' : IsSignificand m' e') (same : magnitude m e = magnitude m' e') : m = m' ∧ e = e' := by
  have lt := h.lt
  have lt' := h'.lt
  have least := h.least
  have least' := h'.least
  have normal := h.normal
  have normal' := h'.normal
  unfold magnitude at same
  omega

/-- The number that is packed of a significand and an exponent has these. -/
theorem isFinite_pack_significand (negative : Bool) {m : Nat} {e : Int} (h : IsSignificand m e)
    (pos : 0 < m) :
    IsFinite (Float.ofModel (Float.Model.pack (.finite (signOf negative) m e pos)))
      negative m e := by
  have packed := isFinite_pack (signOf negative) pos h.greatest
  obtain ⟨negative', m', e', parts⟩ := exists_isFinite packed
  have bits : (if negative then 2 ^ 63 else 0) + magnitude m e =
      (if negative' then 2 ^ 63 else 0) + magnitude m' e' := by
    have bits := parts.bits
    rwa [toBits_pack, toNat_pack _ h pos, toNat_signOf, finiteBits] at bits
  have below : magnitude m e < 2047 * 2 ^ 52 := magnitude_lt h
  have below' : magnitude m' e' < 2047 * 2 ^ 52 := magnitude_lt parts.significand
  obtain rfl : negative' = negative := by
    cases negative <;> cases negative' <;> simp at bits ⊢ <;> omega
  obtain ⟨rfl, rfl⟩ := eq_of_magnitude_eq h parts.significand (by omega)
  exact parts

/-- Where nothing is carried out of the leading place, the significand is the rounded quotient. -/
theorem isFinite_roundWithAccuracy_quotient (negative : Bool) (hd : 0 < den) {e : Int} {k : Nat}
    (normal : 2 ^ 52 * (den * 2 ^ k) ≤ num) (fits : roundHalfEven num (den * 2 ^ k) < 2 ^ 53)
    (least : -1074 ≤ e + k) (greatest : e + k ≤ 971) :
    IsFinite (Float.ofModel (Float.Model.pack (roundWithAccuracy .binary64 (signOf negative)
      (num / den) e (accuracyOfFraction (num % den) den)))) negative
      (roundHalfEven num (den * 2 ^ k)) (e + k) := by
  have scaled : 0 < den * 2 ^ k := Nat.mul_pos hd (Nat.two_pow_pos k)
  have whole : 2 ^ 52 ≤ num / (den * 2 ^ k) := (Nat.le_div_iff_mul_le scaled).2 normal
  have rounded := le_roundHalfEven num (den * 2 ^ k)
  have significand : IsSignificand (roundHalfEven num (den * 2 ^ k)) (e + k) :=
    ⟨fits, least, greatest, .inl (whole.trans rounded)⟩
  have pos : 0 < roundHalfEven num (den * 2 ^ k) := by omega
  have log : (num / den).log2 = 52 + k := by
    have split : num / den / 2 ^ k = num / (den * 2 ^ k) := Nat.div_div_eq_div_mul _ _ _
    have low : 2 ^ 52 * 2 ^ k ≤ num / den :=
      (Nat.le_div_iff_mul_le (Nat.two_pow_pos k)).1 (split ▸ whole)
    have high : num / den < 2 ^ 53 * 2 ^ k :=
      (Nat.div_lt_iff_lt_mul (Nat.two_pow_pos k)).1 (split ▸ rounded.trans_lt fits)
    rw [← Nat.pow_add] at low high
    have hne : num / den ≠ 0 := by
      have := Nat.two_pow_pos (52 + k)
      omega
    have := (Nat.le_log2 hne).2 low
    have := (Nat.log2_lt hne).2 high
    omega
  have target : Format.binary64.targetExponent (totalExponent (num / den) e) = e + k := by
    rw [targetExponent_binary64, totalExponent, log]
    omega
  -- The result is shifted a second time, which does nothing where nothing was carried.
  have again := targetExponent_eq significand pos 0
  have still : (ExtendedMantissa.ofMantissaAndAccuracy (roundHalfEven num (den * 2 ^ k)) .exact
      >>> 0) = ⟨roundHalfEven num (den * 2 ^ k), false, false⟩ := rfl
  have shift : (e + k - e).toNat = k := by omega
  have rest : (e + k - (e + k)).toNat = 0 := by omega
  have first : (ExtendedMantissa.ofMantissaAndAccuracy (num / den)
      (accuracyOfFraction (num % den) den) >>> k).roundedMantissa =
        roundHalfEven num (den * 2 ^ k) := by
    rw [← roundedMantissa_extended scaled, ← shiftRight_extended hd k]
    rfl
  simp only [Nat.pow_zero, Nat.mul_one, Int.ofNat_zero, Int.sub_zero] at again
  have result : roundWithAccuracy .binary64 (signOf negative) (num / den) e
      (accuracyOfFraction (num % den) den) =
        .finite (signOf negative) (roundHalfEven num (den * 2 ^ k)) (e + k) pos := by
    simp only [roundWithAccuracy, shiftToTargetExponent, shiftToExponent, target, shift, first,
      again, rest, still]
    simp [pos.ne']
  rw [result]
  exact isFinite_pack_significand negative significand pos

namespace IsFinite

variable {x y : Float} {n n' : Bool} {m m' k : Nat} {e e' : Int}

/-- A number without its sign. -/
theorem abs (h : IsFinite x n m e) : IsFinite x.abs false m e := by
  obtain ⟨m', e', parts, same⟩ := exists_isFinite_ofMagnitudeBits false (magnitude_lt h.significand)
  obtain ⟨rfl, rfl⟩ := eq_of_magnitude_eq parts.significand h.significand same
  have bits : x.abs = ofMagnitudeBits false (magnitude m' e') :=
    eq_of_toBits_eq (h.toBits_abs.trans parts.bits.symm)
  rwa [bits]

private theorem unpacked_of_pos (s : Sign) (pos : 0 < m) (e : Int) :
    unpacked s m e = .finite s m e pos :=
  dif_pos pos

/-- The product, unless a carry leads to one place more. -/
theorem mul (h : IsFinite x n m e) (h' : IsFinite y n' m' e') (normal : 2 ^ 52 * 2 ^ k ≤ m * m')
    (fits : roundHalfEven (m * m') (2 ^ k) < 2 ^ 53) (least : -1074 ≤ e + e' + k)
    (greatest : e + e' + k ≤ 971) :
    IsFinite (x * y) (n ^^ n') (roundHalfEven (m * m') (2 ^ k)) (e + e' + k) := by
  have hne : 0 < m * m' := by
    have := Nat.two_pow_pos k
    omega
  have pos : 0 < m := Nat.pos_of_mul_pos_right hne
  have pos' : 0 < m' := Nat.pos_of_mul_pos_left hne
  have product : x * y = Float.ofModel (Float.Model.pack
    (UnpackedFloat.mul .binary64 x.toModel.unpack y.toModel.unpack)) := rfl
  have sign : signOf n * signOf n' = signOf (n ^^ n') := by cases n <;> cases n' <;> rfl
  have whole : 2 ^ 52 * (1 * 2 ^ k) ≤ m * m' := by rwa [Nat.one_mul]
  have units : roundHalfEven (m * m') (1 * 2 ^ k) < 2 ^ 53 := by rwa [Nat.one_mul]
  have rounded := isFinite_roundWithAccuracy_quotient (n ^^ n') Nat.one_pos whole units least
    greatest
  rw [product, h.unpack, h'.unpack, unpacked_of_pos _ pos, unpacked_of_pos _ pos',
    UnpackedFloat.mul, sign]
  simpa [accuracyOfFraction, Nat.mod_one] using rounded

/-- The quotient of two numbers with all their places, unless a carry leads to one place more. -/
theorem div (h : IsFinite x n m e) (h' : IsFinite y n' m' e') (whole : 2 ^ 52 ≤ m)
    (whole' : 2 ^ 52 ≤ m') (normal : 2 ^ 52 * (m' * 2 ^ k) ≤ m * 2 ^ 53)
    (fits : roundHalfEven (m * 2 ^ 53) (m' * 2 ^ k) < 2 ^ 53) (least : -1074 ≤ e - e' - 53)
    (greatest : e - e' - 53 + k ≤ 971) :
    IsFinite (x / y) (n ^^ n') (roundHalfEven (m * 2 ^ 53) (m' * 2 ^ k)) (e - e' - 53 + k) := by
  have pos : 0 < m := by omega
  have pos' : 0 < m' := by omega
  have quotient : x / y = Float.ofModel (Float.Model.pack
    (UnpackedFloat.div .binary64 x.toModel.unpack y.toModel.unpack)) := rfl
  have sign : signOf n / signOf n' = signOf (n ^^ n') := by cases n <;> cases n' <;> rfl
  have target : min (e - e')
      (Format.binary64.targetExponent (totalExponent m e - totalExponent m' e')) = e - e' - 53 := by
    rw [targetExponent_binary64, totalExponent, totalExponent, log2_eq whole h.significand.lt,
      log2_eq whole' h'.significand.lt]
    omega
  have shift : (e - e' - (e - e' - 53)).toNat = 53 := by omega
  have rounded := isFinite_roundWithAccuracy_quotient (n ^^ n') pos' normal fits (by omega) greatest
  rw [quotient, h.unpack, h'.unpack, unpacked_of_pos _ pos, unpacked_of_pos _ pos',
    UnpackedFloat.div, divCore, sign]
  simpa only [target, shift, Nat.shiftLeft_eq] using rounded

end IsFinite

end TextTags.Number
