import TextTags.Proofs.Number.Bits

/-!
# Numbers that stay finite

An integer of 64 bits is far inside the range of the format. Sums, differences, products and
quotients stay inside it where the exponents of their leading places say so; to divide by a thousand
leads no number out of it.
-/

namespace TextTags.Number

open Float.Model UnpackedFloat

private theorem isFinite_of_biased {x : Float} (h : x.toBits.toNat / 2 ^ 52 % 2 ^ 11 ≠ 2047) :
    x.isFinite := by
  obtain ⟨m, e, -, unpack, -⟩ := unpack_eq (b := x.toBits.toBitVec) h
  have finite : x.isFinite = (UnpackedFloat.unpack .binary64 x.toBits.toBitVec).isFinite := rfl
  rw [finite, unpack, unpacked]
  split <;> rfl

/-- What is decoded as a finite number is one. -/
theorem isFinite_of_decode {x : Float} {negative : Bool} {m : Nat} {e : Int}
    (h : decode x = .finite negative m e) : IsFinite x negative m e := by
  have biased : x.toBits.toNat / 2 ^ 52 % 2 ^ 11 ≠ 2047 := by
    intro most
    unfold decode at h
    simp only [Nat.pow_eq] at h
    rw [if_pos most] at h
    split at h <;> contradiction
  obtain ⟨negative', m', e', parts⟩ := exists_isFinite (isFinite_of_biased biased)
  obtain ⟨rfl, rfl, rfl⟩ := Decoded.finite.inj (parts.decode.symm.trans h)
  exact parts

/-- Bits below those of infinity make a finite number. -/
theorem isFinite_ofMagnitudeBits (negative : Bool) {bits : Nat} (h : bits < infinityBits) :
    (ofMagnitudeBits negative bits).isFinite := by
  have bound : bits < 2047 * 2 ^ 52 := h
  have same : (UInt64.ofNat ((if negative then Nat.pow 2 63 else 0) + bits)).toNat =
      (if negative then 2 ^ 63 else 0) + bits := by
    apply UInt64.toNat_ofNat_of_lt'
    simp only [UInt64.size, Nat.pow_eq]
    split <;> omega
  have biased : ((if negative then 2 ^ 63 else 0) + bits) / 2 ^ 52 % 2 ^ 11 ≠ 2047 := by
    split <;> omega
  apply isFinite_of_biased
  rw [ofMagnitudeBits, toBits_ofBits (by rwa [same]), same]
  exact biased

/-- Rounding gives at most one more than the whole part. -/
theorem roundHalfEven_le (num den : Nat) : roundHalfEven num den ≤ num / den + 1 := by
  unfold roundHalfEven
  dsimp only
  split
  · omega
  · split <;> omega

private theorem unitExponent_one (n : Nat) :
    unitExponent n 1 = max ((n.log2 : Int) - 53) (-1074) ∨
      unitExponent n 1 = max ((n.log2 : Int) - 52) (-1074) := by
  have one : Nat.log2 1 = 0 := by decide
  unfold unitExponent
  simp only [one]
  split
  · left
    congr 1
    omega
  · right
    rfl

/-- In units of the last place, a whole number has at most a place more than the format holds. -/
theorem scaleDown_one_lt {n : Nat} {unit : Int} (h : (n.log2 : Int) - 53 ≤ unit) :
    (scaleDown n 1 unit).1 / (scaleDown n 1 unit).2 < 2 ^ 54 := by
  have size : n < 2 ^ (n.log2 + 1) := Nat.lt_log2_self
  unfold scaleDown
  simp only [Nat.pow_eq]
  split
  · next nonneg =>
    rw [Nat.one_mul, Nat.div_lt_iff_lt_mul (Nat.two_pow_pos _), ← Nat.pow_add]
    exact Nat.lt_of_lt_of_le size (Nat.pow_le_pow_right (by decide) (by omega))
  · next negative =>
    rw [Nat.div_one]
    calc n * 2 ^ (-unit).toNat < 2 ^ (n.log2 + 1) * 2 ^ (-unit).toNat :=
          Nat.mul_lt_mul_of_pos_right size (Nat.two_pow_pos _)
      _ = 2 ^ (n.log2 + 1 + (-unit).toNat) := (Nat.pow_add _ _ _).symm
      _ ≤ 2 ^ 54 := Nat.pow_le_pow_right (by decide) (by omega)

/-- A whole number of 64 bits has bits below those of infinity. -/
theorem magnitudeBits_lt {n : Nat} (pos : n ≠ 0) (h : n < 2 ^ 64) :
    magnitudeBits n 1 < infinityBits := by
  have places : n.log2 < 64 := (Nat.log2_lt pos).2 h
  have unit : (n.log2 : Int) - 53 ≤ unitExponent n 1 ∧ unitExponent n 1 ≤ 11 := by
    rcases unitExponent_one n with eq | eq <;> omega
  have scaled := scaleDown_one_lt unit.1
  have rounded := roundHalfEven_le (scaleDown n 1 (unitExponent n 1)).1
    (scaleDown n 1 (unitExponent n 1)).2
  have bits : (unitExponent n 1 + 1074).toNat * 2 ^ 52 + roundHalfEven
      (scaleDown n 1 (unitExponent n 1)).1 (scaleDown n 1 (unitExponent n 1)).2 <
        2047 * 2 ^ 52 := by
    omega
  exact Nat.lt_of_le_of_lt (Nat.min_le_left _ _) bits

/-- An integer of 64 bits is a finite number. -/
theorem isFinite_ofInt {n : Int} (h : fitsInt64 n) : (ofInt n).isFinite := by
  have size : n.natAbs < 2 ^ 64 := by
    have power : Nat.pow 2 63 = 2 ^ 63 := rfl
    simp only [fitsInt64, minInt64, maxInt64, power, Bool.and_eq_true, decide_eq_true_eq] at h
    omega
  refine isFinite_ofMagnitudeBits _ ?_
  split
  · decide
  · next pos => exact magnitudeBits_lt pos size

private theorem mantissa_shiftRight (em : ExtendedMantissa) (n : Nat) :
    (em >>> n).mantissa = em.mantissa / 2 ^ n := by
  induction n with
  | zero => simp [HShiftRight.hShiftRight, Nat.repeat]
  | succ n ih =>
    change (em >>> n).mantissa / 2 = _
    rw [ih, Nat.div_div_eq_div_mul, Nat.pow_succ]

private theorem mantissa_ofMantissaAndAccuracy (m : Nat) (accuracy : Accuracy) :
    (ExtendedMantissa.ofMantissaAndAccuracy m accuracy).mantissa = m := by
  cases accuracy with
  | exact => rfl
  | inexact order => cases order <;> rfl

private theorem roundedMantissa_le (em : ExtendedMantissa) :
    em.roundedMantissa ≤ em.mantissa + 1 := by
  unfold ExtendedMantissa.roundedMantissa
  cases em.accuracy with
  | exact => exact Nat.le_succ _
  | inexact order =>
    cases order with
    | lt => exact Nat.le_succ _
    | eq =>
      have := Nat.mod_lt em.mantissa (y := 2) (by decide)
      simp only [Accuracy.roundToNearestEven]
      omega
    | gt => exact Nat.le_refl _

/-- The exponent to which a number of a size is rounded. -/
theorem targetExponent_binary64 (t : Int) :
    Format.binary64.targetExponent t = max (t - 53) (-1074) := rfl

/-- Packing a number whose exponent is in range gives a finite number. -/
theorem isFinite_pack (s : Sign) {m : Nat} {e : Int} (pos : 0 < m) (h : e ≤ 971) :
    (Float.ofModel (Float.Model.pack (.finite s m e pos))).isFinite := by
  have bits : Format.binary64.mantissaBits = 53 := rfl
  apply isFinite_of_biased
  rw [toBits_pack]
  simp only [UnpackedFloat.pack, bias_eq, bits]
  rw [if_neg (by omega)]
  split
  · rw [toNat_packComponents]
    have fraction := (BitVec.ofNat 52 m).isLt
    have sign := s.toBitVec.isLt
    rw [BitVec.toNat_ofNat (w := 11)]
    omega
  · rw [toNat_packComponents]
    have fraction := (BitVec.ofNat 52 m).isLt
    have sign := s.toBitVec.isLt
    simp
    omega

/-- Shifting a significand to the exponent that belongs to it leaves 53 places. -/
theorem shift_lt (m : Nat) (e : Int) :
    m / 2 ^ (Format.binary64.targetExponent (totalExponent m e) - e).toNat < 2 ^ 53 := by
  have size : m < 2 ^ (m.log2 + 1) := Nat.lt_log2_self
  rw [targetExponent_binary64, totalExponent, Nat.div_lt_iff_lt_mul (Nat.two_pow_pos _),
    ← Nat.pow_add]
  exact Nat.lt_of_lt_of_le size (Nat.pow_le_pow_right (by decide) (by omega))

/-- Rounding a number below `2 ^ 1023` leads to no exponent out of range. -/
theorem isFinite_roundWithAccuracy (s : Sign) {m : Nat} {e : Int} (accuracy : Accuracy)
    (he : e ≤ 970) (hm : m.log2 + e ≤ 1022) :
    (Float.ofModel (Float.Model.pack (roundWithAccuracy .binary64 s m e accuracy))).isFinite := by
  have shifted := shift_lt m e
  unfold roundWithAccuracy shiftToTargetExponent shiftToExponent
  dsimp only
  rw [targetExponent_binary64, totalExponent] at shifted ⊢
  set k := (max ((m.log2 : Int) + 1 + e - 53) (-1074) - e).toNat with hk
  set em := ExtendedMantissa.ofMantissaAndAccuracy m accuracy >>> k
  have mantissa : em.mantissa = m / 2 ^ k := by
    rw [mantissa_shiftRight, mantissa_ofMantissaAndAccuracy]
  have rounded := roundedMantissa_le em
  have places : em.roundedMantissa.log2 ≤ 53 := by
    have small : em.roundedMantissa < 2 ^ 54 := by omega
    by_cases zero : em.roundedMantissa = 0
    · simp [zero]
    · exact Nat.le_of_lt_succ ((Nat.log2_lt zero).2 small)
  split
  · cases s <;> rfl
  · refine isFinite_pack s _ ?_
    rw [targetExponent_binary64, totalExponent]
    omega

/-- Zero is finite. -/
theorem isFinite_zero : IsFinite 0.0 false 0 (-1074) where
  significand := ⟨by decide, by decide, by decide, .inr rfl⟩
  decode := rfl
  unpack := rfl
  bits := by decide +kernel

/-- No significand has more than 53 places. -/
theorem IsSignificand.log2_le {m : Nat} {e : Int} (h : IsSignificand m e) : m.log2 ≤ 52 := by
  by_cases zero : m = 0
  · simp [zero]
  · exact Nat.le_of_lt_succ ((Nat.log2_lt zero).2 h.lt)

private theorem log2_shiftLeft {m : Nat} (pos : 0 < m) (k : Nat) : (m <<< k).log2 = m.log2 + k := by
  have hne : m * 2 ^ k ≠ 0 := (Nat.mul_pos pos (Nat.two_pow_pos k)).ne'
  rw [Nat.shiftLeft_eq]
  refine Nat.le_antisymm (Nat.le_of_lt_succ ((Nat.log2_lt hne).2 ?_)) ((Nat.le_log2 hne).2 ?_)
  · rw [← Nat.succ_add, Nat.pow_add]
    exact Nat.mul_lt_mul_of_pos_right Nat.lt_log2_self (Nat.two_pow_pos k)
  · rw [Nat.pow_add]
    exact Nat.mul_le_mul_right _ (Nat.log2_self_le pos.ne')

/-- Rounding a number below `2 ^ 1023` leads to no exponent out of range, wherever its last place
stands. -/
theorem isFinite_round (s : Sign) {m : Nat} {e : Int} (pos : 0 < m) (hm : m.log2 + e ≤ 1022) :
    (Float.ofModel (Float.Model.pack (round .binary64 s m e))).isFinite := by
  unfold UnpackedFloat.round decreaseExponent
  dsimp only
  rw [targetExponent_binary64, totalExponent]
  refine isFinite_roundWithAccuracy s _ (by omega) ?_
  rw [log2_shiftLeft pos]
  omega

private theorem isFinite_normalize (s : Sign) {m e : Int} (hm : m.natAbs.log2 + e ≤ 1022) :
    (Float.ofModel (Float.Model.pack (normalize .binary64 m e s))).isFinite := by
  unfold UnpackedFloat.normalize
  split
  · next less =>
    have below := Int.compare_eq_lt.1 less
    have size : (-m).toNat = m.natAbs := by omega
    rw [size]
    exact isFinite_round _ (by omega) hm
  · cases s <;> rfl
  · next greater =>
    have above := Int.compare_eq_gt.1 greater
    have size : m.toNat = m.natAbs := by omega
    rw [size]
    exact isFinite_round _ (by omega) hm

/-- Two numbers in units of the same place have a sum of at most one place more. -/
theorem log2_aligned_le {a b : Int} {m m' : Nat} {e e' : Int} {most : Int} (pos : 0 < m)
    (pos' : 0 < m') (hm : m.log2 + e ≤ most) (hm' : m'.log2 + e' ≤ most)
    (size : a.natAbs = m <<< (e - min e e').toNat)
    (size' : b.natAbs = m' <<< (e' - min e e').toNat) :
    ((a + b).natAbs.log2 : Int) + min e e' ≤ most + 1 := by
  have bound {c : Int} {n : Nat} {f : Int} (pos : 0 < n) (hn : n.log2 + f ≤ most)
      (least : min e e' ≤ f) (size : c.natAbs = n <<< (f - min e e').toNat) :
      c.natAbs < 2 ^ (most - min e e' + 1).toNat := by
    calc c.natAbs < 2 ^ (c.natAbs.log2 + 1) := Nat.lt_log2_self
      _ ≤ 2 ^ (most - min e e' + 1).toNat := by
        rw [size, log2_shiftLeft pos]
        exact Nat.pow_le_pow_right (by decide) (by omega)
  have first := bound pos hm (by omega) size
  have second := bound pos' hm' (by omega) size'
  have sum : (a + b).natAbs < 2 ^ ((most - min e e' + 1).toNat + 1) := by
    rw [Nat.pow_succ]
    omega
  by_cases zero : (a + b).natAbs = 0
  · rw [zero]
    simp
    omega
  · have := (Nat.log2_lt zero).2 sum
    omega

/-- To divide takes back all places of the divisor but one. -/
theorem log2_quotient_le {m m' : Nat} (pos : 0 < m) (pos' : 0 < m') (k : Nat)
    (hne : m <<< k / m' ≠ 0) : (m <<< k / m').log2 + m'.log2 ≤ m.log2 + k := by
  have whole : 2 ^ ((m <<< k / m').log2 + m'.log2) ≤ m <<< k := by
    calc 2 ^ ((m <<< k / m').log2 + m'.log2) = 2 ^ (m <<< k / m').log2 * 2 ^ m'.log2 :=
          Nat.pow_add _ _ _
      _ ≤ m <<< k / m' * m' :=
        Nat.mul_le_mul (Nat.log2_self_le hne) (Nat.log2_self_le pos'.ne')
      _ ≤ m <<< k := Nat.div_mul_le_self _ _
  rw [← log2_shiftLeft pos]
  refine (Nat.le_log2 ?_).2 whole
  exact fun zero ↦ hne (by rw [zero, Nat.zero_div])

private theorem natAbs_apply (s : Sign) (m : Nat) : (s.apply m).natAbs = m := by
  cases s <;> simp [Sign.apply]

namespace IsFinite

variable {x y : Float} {n n' : Bool} {m m' : Nat} {e e' : Int}

/-- The sum of numbers below half the range is finite. -/
theorem isFinite_add (h : IsFinite x n m e) (h' : IsFinite y n' m' e') (hm : m.log2 + e ≤ 1021)
    (hm' : m'.log2 + e' ≤ 1021) : (x + y).isFinite := by
  have sum : x + y = Float.ofModel (Float.Model.pack
    (UnpackedFloat.add .binary64 x.toModel.unpack y.toModel.unpack)) := rfl
  have greatest := h.significand.greatest
  have greatest' := h'.significand.greatest
  rw [sum, h.unpack, h'.unpack]
  by_cases pos : 0 < m <;> by_cases pos' : 0 < m'
  · simp only [unpacked, dif_pos pos, dif_pos pos', UnpackedFloat.add, decreaseExponent]
    refine isFinite_normalize _ ?_
    exact log2_aligned_le pos pos' hm hm' (natAbs_apply _ _) (natAbs_apply _ _)
  · simp only [unpacked, dif_pos pos, dif_neg pos', UnpackedFloat.add]
    exact isFinite_pack _ pos greatest
  · simp only [unpacked, dif_neg pos, dif_pos pos', UnpackedFloat.add]
    exact isFinite_pack _ pos' greatest'
  · simp only [unpacked, dif_neg pos, dif_neg pos', UnpackedFloat.add]
    cases n <;> cases n' <;> rfl

/-- The difference of numbers below half the range is finite. -/
theorem isFinite_sub (h : IsFinite x n m e) (h' : IsFinite y n' m' e') (hm : m.log2 + e ≤ 1021)
    (hm' : m'.log2 + e' ≤ 1021) : (x - y).isFinite := by
  have difference : x - y = Float.ofModel (Float.Model.pack
    (UnpackedFloat.sub .binary64 x.toModel.unpack y.toModel.unpack)) := rfl
  have greatest := h.significand.greatest
  have greatest' := h'.significand.greatest
  rw [difference, h.unpack, h'.unpack]
  by_cases pos : 0 < m <;> by_cases pos' : 0 < m'
  · simp only [unpacked, dif_pos pos, dif_pos pos', UnpackedFloat.sub, decreaseExponent]
    rw [Int.sub_eq_add_neg]
    refine isFinite_normalize _ ?_
    refine log2_aligned_le pos pos' hm hm' (natAbs_apply _ _) ?_
    rw [Int.natAbs_neg, natAbs_apply]
  · simp only [unpacked, dif_pos pos, dif_neg pos', UnpackedFloat.sub]
    exact isFinite_pack _ pos greatest
  · simp only [unpacked, dif_neg pos, dif_pos pos', UnpackedFloat.sub]
    exact isFinite_pack _ pos' greatest'
  · simp only [unpacked, dif_neg pos, dif_neg pos', UnpackedFloat.sub]
    cases n <;> cases n' <;> rfl

/-- A product is finite where the sizes of its factors add up to no more than the range. -/
theorem isFinite_mul (h : IsFinite x n m e) (h' : IsFinite y n' m' e')
    (hm : m.log2 + e + (m'.log2 + e') ≤ 1021) (he : e + e' ≤ 970) : (x * y).isFinite := by
  have product : x * y = Float.ofModel (Float.Model.pack
    (UnpackedFloat.mul .binary64 x.toModel.unpack y.toModel.unpack)) := rfl
  rw [product, h.unpack, h'.unpack]
  by_cases pos : 0 < m <;> by_cases pos' : 0 < m'
  · simp only [unpacked, dif_pos pos, dif_pos pos', UnpackedFloat.mul]
    have places : (m * m').log2 ≤ m.log2 + m'.log2 + 1 := by
      refine Nat.le_of_lt_succ ((Nat.log2_lt (Nat.mul_pos pos pos').ne').2 ?_)
      calc m * m' < 2 ^ (m.log2 + 1) * 2 ^ (m'.log2 + 1) :=
            Nat.mul_lt_mul'' Nat.lt_log2_self Nat.lt_log2_self
        _ = 2 ^ (m.log2 + m'.log2 + 1 + 1) := by
          rw [← Nat.pow_add]
          congr 1
          omega
    exact isFinite_roundWithAccuracy _ _ he (by omega)
  all_goals
    simp only [unpacked, pos, pos', dif_pos, dif_neg, not_false_eq_true, UnpackedFloat.mul]
    cases n <;> cases n' <;> rfl

/-- A quotient is finite where the sizes differ by no more than the range. -/
theorem isFinite_div (h : IsFinite x n m e) (h' : IsFinite y n' m' e') (pos' : 0 < m')
    (hm : m.log2 + e - (m'.log2 + e') ≤ 1022) : (x / y).isFinite := by
  have quotient : x / y = Float.ofModel (Float.Model.pack
    (UnpackedFloat.div .binary64 x.toModel.unpack y.toModel.unpack)) := rfl
  rw [quotient, h.unpack, h'.unpack]
  by_cases pos : 0 < m
  · simp only [unpacked, dif_pos pos, dif_pos pos', UnpackedFloat.div, divCore]
    rw [targetExponent_binary64, totalExponent, totalExponent]
    set unit := min (e - e') (max ((m.log2 : Int) + 1 + e - (m'.log2 + 1 + e') - 53) (-1074))
      with hunit
    have places : ((m <<< (e - e' - unit).toNat / m').log2 : Int) + unit ≤ 1022 := by
      by_cases zero : m <<< (e - e' - unit).toNat / m' = 0
      · rw [zero]
        simp
        omega
      · have := log2_quotient_le pos pos' _ zero
        omega
    exact isFinite_roundWithAccuracy _ _ (by omega) places
  · simp only [unpacked, dif_neg pos, dif_pos pos', UnpackedFloat.div]
    cases n <;> cases n' <;> rfl

end IsFinite

private theorem unpack_thousand :
    (1000.0 : Float).toModel.unpack = .finite .positive (1000 * 2 ^ 43) (-43) (by decide) := rfl

/-- A thousand is finite. -/
theorem isFinite_thousand : IsFinite 1000.0 false (1000 * 2 ^ 43) (-43) where
  significand := ⟨by decide, by decide, by decide, .inl (by decide)⟩
  decode := rfl
  unpack := by rw [unpack_thousand, unpacked, dif_pos (by decide)]; rfl
  bits := by decide +kernel

end TextTags.Number
