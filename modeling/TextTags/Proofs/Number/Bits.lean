import Mathlib
import TextTags.Number.Shortest

/-!
# The bits of finite numbers

A finite number is a sign, a significand and an exponent, and its bits hold these one above the
other. Packing, unpacking and decoding agree on them, so finite numbers are equal when their bits
are, and one is neutral for multiplication.
-/

namespace TextTags.Number

open Float.Model UnpackedFloat

/-- A significand and an exponent as the format holds them. -/
structure IsSignificand (m : Nat) (e : Int) : Prop where
  lt : m < 2 ^ 53
  least : -1074 ≤ e
  greatest : e ≤ 971
  normal : 2 ^ 52 ≤ m ∨ e = -1074

/-- The bits of a number in their places: the sign, the exponent and the significand. -/
theorem toNat_packComponents (s : Sign) (e : BitVec 11) (m : BitVec 52) :
    (packComponents .binary64 s e m).toNat =
      s.toBitVec.toNat * 2 ^ 63 + e.toNat * 2 ^ 52 + m.toNat := by
  have hm := m.isLt
  have he := e.isLt
  simp only [packComponents, BitVec.toNat_append]
  rw [← Nat.shiftLeft_add_eq_or_of_lt (by simpa using hm),
    ← Nat.shiftLeft_add_eq_or_of_lt (by simpa using he)]
  simp only [Nat.shiftLeft_eq]
  omega

private theorem toNat_unpackMantissa (b : BitVec Format.binary64.numBits) :
    (unpackMantissa b).toNat = b.toNat % 2 ^ 52 := by
  simp [unpackMantissa]

private theorem toNat_unpackExponent (b : BitVec Format.binary64.numBits) :
    (unpackExponent b).toNat = b.toNat / 2 ^ 52 % 2 ^ 11 := by
  simp [unpackExponent, Nat.shiftRight_eq_div_pow]

private theorem toNat_unpackSign (b : BitVec Format.binary64.numBits) :
    (unpackSign b).toNat = b.toNat / 2 ^ 63 % 2 := by
  simp [unpackSign, Nat.shiftRight_eq_div_pow]

private theorem toBitVec_ofBitVec (v : BitVec 1) : (Sign.ofBitVec v).toBitVec = v := by
  revert v
  decide

/-- What is added to an exponent where it is stored. -/
theorem bias_eq : ((Format.binary64.exponentBias : Nat) : Int) = 1023 := rfl

/-- A significand of 53 places has the logarithm 52. -/
theorem log2_eq {m : Nat} (low : 2 ^ 52 ≤ m) (high : m < 2 ^ 53) : m.log2 = 52 := by
  have pos : m ≠ 0 := by omega
  have := (Nat.le_log2 pos).2 low
  have := (Nat.log2_lt pos).2 high
  omega

/-- The bits of a finite number, as one integer. -/
theorem toNat_pack (s : Sign) {m : Nat} {e : Int} (h : IsSignificand m e) (pos : 0 < m) :
    (UnpackedFloat.pack .binary64 (.finite s m e pos)).toNat =
      s.toBitVec.toNat * 2 ^ 63 + ((e + 1074).toNat * 2 ^ 52 + m) := by
  have bits : Format.binary64.mantissaBits = 53 := rfl
  have := h.lt
  have := h.least
  have := h.greatest
  simp only [UnpackedFloat.pack, bias_eq, bits]
  rw [if_neg (by omega)]
  by_cases normal : 2 ^ 52 ≤ m
  · rw [if_pos (by rw [log2_eq normal h.lt]), toNat_packComponents, BitVec.toNat_ofNat,
      BitVec.toNat_ofNat]
    omega
  · have log : m.log2 < 52 := (Nat.log2_lt (Nat.ne_of_gt pos)).2 (by omega)
    have least : e = -1074 := h.normal.resolve_left normal
    rw [if_neg (by omega), toNat_packComponents, BitVec.toNat_ofNat]
    subst least
    simp
    omega

/-- The finite number of a sign, a significand and an exponent, zero included. -/
def unpacked (s : Sign) (m : Nat) (e : Int) : UnpackedFloat :=
  if h : 0 < m then .finite s m e h else .zero s

private theorem toNat_one_append (v : BitVec 52) : (1#1 ++ v).toNat = 2 ^ 52 + v.toNat := by
  rw [BitVec.toNat_append, ← Nat.shiftLeft_add_eq_or_of_lt v.isLt]
  simp [Nat.shiftLeft_eq]

/-- What unpacking gives where the exponent is not the one of infinities. -/
theorem unpack_eq {b : BitVec Format.binary64.numBits} (h : b.toNat / 2 ^ 52 % 2 ^ 11 ≠ 2047) :
    ∃ m e, IsSignificand m e ∧
      UnpackedFloat.unpack .binary64 b = unpacked (Sign.ofBitVec (unpackSign b)) m e ∧
      b.toNat = b.toNat / 2 ^ 63 % 2 * 2 ^ 63 + ((e + 1074).toNat * 2 ^ 52 + m) := by
  have total : b.toNat < 2 ^ 64 := b.isLt
  have mant := toNat_unpackMantissa b
  have expo := toNat_unpackExponent b
  have finite : unpackExponent b ≠ -1#_ := by
    intro eq
    rw [eq] at expo
    exact h (expo.symm.trans rfl)
  simp only [UnpackedFloat.unpack, if_neg finite]
  by_cases least : unpackExponent b = 0#_
  · rw [if_pos least]
    have zero : b.toNat / 2 ^ 52 % 2 ^ 11 = 0 := by
      rw [← expo, least]
      rfl
    refine ⟨(unpackMantissa b).toNat, -1074, ⟨by omega, by omega, by omega, .inr rfl⟩, ?_, by omega⟩
    by_cases hno : unpackMantissa b = 0#_
    · simp [hno, unpacked]
    · have pos : 0 < (unpackMantissa b).toNat := by
        simpa [BitVec.toNat_pos, BitVec.pos_iff_ne_zero] using hno
      simp only [dif_neg hno, unpacked, dif_pos pos, least, bias_eq]
      rfl
  · rw [if_neg least]
    have hne : b.toNat / 2 ^ 52 % 2 ^ 11 ≠ 0 := by
      intro eq
      exact least (BitVec.eq_of_toNat_eq (expo.trans eq))
    refine ⟨(1#1 ++ unpackMantissa b).toNat, (b.toNat / 2 ^ 52 % 2 ^ 11 : Nat) - 1075,
      ⟨?_, by omega, by omega, .inl ?_⟩, ?_, ?_⟩
    · rw [toNat_one_append]; omega
    · rw [toNat_one_append]; omega
    · have pos : 0 < (1#1 ++ unpackMantissa b).toNat := by rw [toNat_one_append]; omega
      simp only [unpacked, dif_pos pos, expo, bias_eq]
      rfl
    · rw [toNat_one_append]; omega

/-- The sign of a number. -/
def signOf (negative : Bool) : Sign := if negative then .negative else .positive

/-- The sign is the first of 64 bits. -/
theorem toNat_signOf (negative : Bool) :
    (signOf negative).toBitVec.toNat * 2 ^ 63 = if negative then 2 ^ 63 else 0 := by
  cases negative <;> rfl

private theorem toNat_pack_unpacked (s : Sign) {m : Nat} {e : Int} (h : IsSignificand m e) :
    (UnpackedFloat.pack .binary64 (unpacked s m e)).toNat =
      s.toBitVec.toNat * 2 ^ 63 + ((e + 1074).toNat * 2 ^ 52 + m) := by
  unfold unpacked
  split
  · next pos => exact toNat_pack s h pos
  · next zero =>
    have least := h.normal.resolve_left (by omega)
    subst least
    rw [UnpackedFloat.pack, packedZero, toNat_packComponents]
    simp
    omega

/-- The bits of a finite number without its sign: the exponent, counted from the least, above the
significand, whose leading place adds to it. -/
def magnitude (m : Nat) (e : Int) : Nat := (e + 1074).toNat * 2 ^ 52 + m

/-- The bits of a finite number. -/
def finiteBits (negative : Bool) (m : Nat) (e : Int) : Nat :=
  (if negative then 2 ^ 63 else 0) + magnitude m e

/-- A finite number is its sign, its significand and its exponent, in each of its forms. -/
structure IsFinite (x : Float) (negative : Bool) (m : Nat) (e : Int) : Prop where
  significand : IsSignificand m e
  decode : decode x = .finite negative m e
  unpack : x.toModel.unpack = unpacked (signOf negative) m e
  bits : x.toBits.toNat = finiteBits negative m e

private theorem biased_ne_of_isFinite {x : Float} (h : x.isFinite) :
    x.toBits.toNat / 2 ^ 52 % 2 ^ 11 ≠ 2047 := by
  intro eq
  have expo : @unpackExponent .binary64 x.toBits.toBitVec = -1#_ :=
    BitVec.eq_of_toNat_eq ((toNat_unpackExponent _).trans eq)
  have infinite : (UnpackedFloat.unpack .binary64 x.toBits.toBitVec).isFinite = false := by
    simp only [UnpackedFloat.unpack, expo, if_true]
    split <;> rfl
  have : x.isFinite = false := infinite
  simp [this] at h

/-- A finite number has a sign, a significand and an exponent. -/
theorem exists_isFinite {x : Float} (h : x.isFinite) : ∃ negative m e, IsFinite x negative m e := by
  have biased := biased_ne_of_isFinite h
  obtain ⟨m, e, hm, unpack, bits⟩ := unpack_eq (b := x.toBits.toBitVec) biased
  have total : x.toBits.toNat < 2 ^ 64 := x.toBits.toBitVec.isLt
  change x.toBits.toNat = x.toBits.toNat / 2 ^ 63 % 2 * 2 ^ 63 + _ at bits
  have hl := hm.lt
  have hg := hm.greatest
  have hn := hm.normal
  have he := hm.least
  refine ⟨x.toBits.toNat / 2 ^ 63 % 2 == 1, m, e, hm, ?_, ?_, ?_⟩
  · unfold Number.decode
    simp only [Nat.pow_eq]
    rw [if_neg (by omega)]
    split
    · next zero => congr 1 <;> omega
    · next hne => congr 1 <;> omega
  · apply unpack.trans
    congr 1
    rcases Nat.mod_two_eq_zero_or_one (x.toBits.toNat / 2 ^ 63) with s | s
    · have : @unpackSign .binary64 x.toBits.toBitVec = 0#1 :=
        BitVec.eq_of_toNat_eq ((toNat_unpackSign _).trans s)
      rw [this, s]
      rfl
    · have : @unpackSign .binary64 x.toBits.toBitVec = 1#1 :=
        BitVec.eq_of_toNat_eq ((toNat_unpackSign _).trans s)
      rw [this, s]
      rfl
  · unfold finiteBits magnitude
    rcases Nat.mod_two_eq_zero_or_one (x.toBits.toNat / 2 ^ 63) with s | s
    · simp only [s] at bits ⊢
      simpa using bits
    · simp only [s] at bits ⊢
      simpa using bits

/-- Numbers of the same bits are the same. -/
theorem eq_of_toBits_eq {x y : Float} (h : x.toBits.toNat = y.toBits.toNat) : x = y := by
  obtain ⟨⟨a, _⟩⟩ := x
  obtain ⟨⟨b, _⟩⟩ := y
  have : a = b := UInt64.toNat_inj.mp h
  subst this
  rfl

/-- The bits of a number are those that its form is packed into. -/
theorem toBits_pack (f : UnpackedFloat) :
    (Float.ofModel (Float.Model.pack f)).toBits.toNat =
      (UnpackedFloat.pack .binary64 f).toNat := rfl

namespace IsFinite

variable {x : Float} {negative : Bool} {m : Nat} {e : Int}

/-- Packing the parts of a number gives the number. -/
theorem pack_eq (h : IsFinite x negative m e) :
    Float.ofModel (Float.Model.pack (unpacked (signOf negative) m e)) = x := by
  apply eq_of_toBits_eq
  rw [toBits_pack, toNat_pack_unpacked _ h.significand, toNat_signOf, h.bits, finiteBits, magnitude]

/-- The absolute value of a finite number has its bits without the sign. -/
theorem toBits_abs (h : IsFinite x negative m e) : x.abs.toBits.toNat = finiteBits false m e := by
  have abs : (unpacked (signOf negative) m e).abs = unpacked (signOf false) m e := by
    unfold unpacked
    split <;> rfl
  have packed : x.abs = Float.ofModel (Float.Model.pack x.toModel.unpack.abs) := rfl
  rw [packed, h.unpack, abs, toBits_pack, toNat_pack_unpacked _ h.significand, toNat_signOf,
    finiteBits, magnitude]

/-- A finite number equals itself. -/
theorem beq_self (h : IsFinite x negative m e) : (x == x) = true := by
  have beq : (x == x) = x.toModel.unpack.beq x.toModel.unpack := rfl
  rw [beq, h.unpack]
  unfold unpacked
  split
  · cases negative <;> simp [UnpackedFloat.beq, UnpackedFloat.compare, signOf, Ordering.swap,
      Ordering.then]
  · rfl

end IsFinite

private theorem shiftRight_exact (m n : Nat) :
    ((⟨m * 2 ^ n, false, false⟩ : ExtendedMantissa) >>> n) = ⟨m, false, false⟩ := by
  induction n generalizing m with
  | zero => simp [HShiftRight.hShiftRight, Nat.repeat]
  | succ n ih =>
    have twice : m * 2 ^ (n + 1) = (2 * m) * 2 ^ n := by rw [Nat.pow_succ]; ac_rfl
    rw [twice]
    change ExtendedMantissa.shiftRightOne
      ((⟨(2 * m) * 2 ^ n, false, false⟩ : ExtendedMantissa) >>> n) = _
    rw [ih]
    simp [ExtendedMantissa.shiftRightOne]

/-- A significand of the format keeps its exponent when it is rounded. -/
theorem targetExponent_eq {m : Nat} {e : Int} (h : IsSignificand m e) (pos : 0 < m) (n : Nat) :
    Format.binary64.targetExponent (totalExponent (m * 2 ^ n) (e - n)) = e := by
  have nonzero : m ≠ 0 := Nat.ne_of_gt pos
  have log : (m * 2 ^ n).log2 = m.log2 + n := by
    induction n with
    | zero => simp
    | succ n ih =>
      have twice : m * 2 ^ (n + 1) = 2 * (m * 2 ^ n) := by rw [Nat.pow_succ]; ac_rfl
      rw [twice, Nat.log2_two_mul (Nat.mul_ne_zero nonzero (by simp)), ih, Nat.add_assoc]
  have target (t : Int) : Format.binary64.targetExponent t = max (t - 53) (-1074) := rfl
  have := h.least
  rw [target, totalExponent, log]
  rcases h.normal with normal | least
  · rw [log2_eq normal h.lt]
    omega
  · have := (Nat.log2_lt nonzero).2 h.lt
    omega

/-- A number of the format is rounded to itself. -/
theorem roundWithAccuracy_exact (s : Sign) {m : Nat} {e : Int} (h : IsSignificand m e) (pos : 0 < m)
    (n : Nat) :
    roundWithAccuracy .binary64 s (m * 2 ^ n) (e - n) .exact = .finite s m e pos := by
  have target := targetExponent_eq h pos n
  have again := targetExponent_eq h pos 0
  simp only [Nat.pow_zero, Nat.mul_one, Int.ofNat_zero, Int.sub_zero] at again
  have shift : (e - (e - n)).toNat = n := by omega
  have back : e - n + n = e := by omega
  simp only [roundWithAccuracy, shiftToTargetExponent, shiftToExponent, target, shift,
    ExtendedMantissa.ofMantissaAndAccuracy, shiftRight_exact, ExtendedMantissa.roundedMantissa,
    ExtendedMantissa.accuracy, Accuracy.roundToNearestEven, back, again]
  have still := shiftRight_exact m 0
  simp only [Nat.pow_zero, Nat.mul_one] at still
  simp [still, Nat.ne_of_gt pos]

/-- One is neutral for finite numbers. -/
theorem IsFinite.mul_one {x : Float} {negative : Bool} {m : Nat} {e : Int}
    (h : IsFinite x negative m e) : x * 1.0 = x := by
  have one : (1.0 : Float).toModel.unpack = .finite .positive (2 ^ 52) (-52) (by decide) := rfl
  have mul : x * 1.0 = Float.ofModel (Float.Model.pack
    (UnpackedFloat.mul .binary64 x.toModel.unpack (1.0 : Float).toModel.unpack)) := rfl
  have sign : signOf negative * .positive = signOf negative := by cases negative <;> rfl
  rw [mul, h.unpack, one]
  refine Eq.trans ?_ h.pack_eq
  congr 2
  unfold unpacked
  split
  · next pos =>
    rw [UnpackedFloat.mul, sign]
    exact roundWithAccuracy_exact _ h.significand pos 52
  · rw [UnpackedFloat.mul, sign]

/-- Bits that are not those of an infinity or of no number are kept. -/
theorem toBits_ofBits {a : UInt64} (h : a.toNat / 2 ^ 52 % 2 ^ 11 ≠ 2047) :
    (Float.ofBits a).toBits.toNat = a.toNat := by
  obtain ⟨m, e, hm, unpack, bits⟩ := unpack_eq (b := a.toBitVec) h
  change (Float.ofModel (Float.Model.pack (UnpackedFloat.unpack .binary64 a.toBitVec))).toBits.toNat
    = a.toBitVec.toNat
  have sign : (Sign.ofBitVec (@unpackSign .binary64 a.toBitVec)).toBitVec.toNat =
      a.toBitVec.toNat / 2 ^ 63 % 2 := by
    rw [toBitVec_ofBitVec, toNat_unpackSign]
  rw [unpack, toBits_pack, toNat_pack_unpacked _ hm, sign, ← bits]

/-- The bits given to a magnitude are the bits it has, up to those of infinity. -/
theorem toBits_ofMagnitudeBits {bits : Nat} (h : bits ≤ infinityBits) :
    (ofMagnitudeBits false bits).toBits.toNat = bits := by
  rcases Nat.lt_or_eq_of_le h with small | rfl
  · have bound : bits < 2047 * 2 ^ 52 := small
    have same : (UInt64.ofNat bits).toNat = bits := by
      exact UInt64.toNat_ofNat_of_lt' (by simp only [UInt64.size]; omega)
    simp only [ofMagnitudeBits, Bool.false_eq_true, if_false, Nat.zero_add]
    rw [toBits_ofBits (by rw [same]; omega), same]
  · rfl

/-- A finite number is the one of its sign and its magnitude. -/
theorem IsFinite.ofMagnitudeBits_eq {x : Float} {negative : Bool} {m : Nat} {e : Int}
    (h : IsFinite x negative m e) : ofMagnitudeBits negative (magnitude m e) = x := by
  have low := h.significand.lt
  have least := h.significand.least
  have greatest := h.significand.greatest
  have normal := h.significand.normal
  apply eq_of_toBits_eq
  have same : (UInt64.ofNat (finiteBits negative m e)).toNat = finiteBits negative m e := by
    apply UInt64.toNat_ofNat_of_lt'
    simp only [UInt64.size, finiteBits, magnitude]
    split <;> omega
  have biased : finiteBits negative m e / 2 ^ 52 % 2 ^ 11 ≠ 2047 := by
    unfold finiteBits magnitude
    split <;> omega
  rw [h.bits, ← same]
  exact toBits_ofBits (same ▸ biased)

/-- The bits, without the sign, of the number nearest to `digits * 10 ^ exponent`. -/
def decimalBits (digits : Nat) (exponent : Int) : Nat :=
  if digits = 0 then 0
  else
    let size : Int := exponent + (Nat.toDigits 10 digits).length
    if 400 < size then infinityBits
    else if size < -400 then 0
    else if 0 ≤ exponent then magnitudeBits (digits * 10 ^ exponent.toNat) 1
    else magnitudeBits digits (10 ^ (-exponent).toNat)

/-- A decimal number has the bits of its magnitude and its sign. -/
theorem ofDecimal_eq (negative : Bool) (digits : Nat) (exponent : Int) :
    ofDecimal negative digits exponent =
      ofMagnitudeBits negative (decimalBits digits exponent) := by
  unfold ofDecimal decimalBits
  simp only [Nat.pow_eq]
  split
  · simp [ofRatio]
  · next nonzero =>
    have scaled (n : Nat) : digits * 10 ^ n ≠ 0 :=
      Nat.mul_ne_zero nonzero (Nat.ne_of_gt (Nat.pow_pos (by omega)))
    split
    · rfl
    · split
      · simp [ofRatio]
      · split
        · rw [ofRatio, if_neg (scaled _)]
        · rw [ofRatio, if_neg nonzero]

/-- No decimal number is larger than infinity. -/
theorem decimalBits_le (digits : Nat) (exponent : Int) :
    decimalBits digits exponent ≤ infinityBits := by
  unfold decimalBits
  dsimp only
  split
  · exact Nat.zero_le _
  · split
    · exact Nat.le_refl _
    · split
      · exact Nat.zero_le _
      · split <;> exact Nat.min_le_right _ _

end TextTags.Number
