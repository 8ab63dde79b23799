import TextTags.Proofs.Number.Bits

/-!
# Rounding

Rounding to the format depends on the value of a quotient alone, and a number of the format is
rounded to itself. Values are compared as rational numbers.
-/

namespace TextTags.Number

private theorem roundHalfEven_mul_left {c : Nat} (hc : 0 < c) (a b : Nat) :
    roundHalfEven (c * a) (c * b) = roundHalfEven a b := by
  have double : 2 * (c * (a % b)) = c * (2 * (a % b)) := by ac_rfl
  simp only [roundHalfEven, Nat.mul_div_mul_left _ _ hc, Nat.mul_mod_mul_left, double,
    Nat.mul_lt_mul_left hc, Nat.mul_right_inj (Nat.ne_of_gt hc)]

/-- Equal quotients are rounded alike. -/
theorem roundHalfEven_congr {a b a' b' : Nat} (hb : 0 < b) (hb' : 0 < b')
    (h : a * b' = a' * b) : roundHalfEven a b = roundHalfEven a' b' := by
  rw [← roundHalfEven_mul_left hb' a b, ← roundHalfEven_mul_left hb a' b', Nat.mul_comm b' a, h,
    Nat.mul_comm a' b, Nat.mul_comm b' b]

private theorem roundHalfEven_mul_self (m : Nat) {b : Nat} (hb : 0 < b) :
    roundHalfEven (m * b) b = m := by
  simp [roundHalfEven, Nat.mul_div_cancel _ hb, hb]

/-- A quotient of natural numbers. -/
def ratio (num den : Nat) : ℚ := num / den

private theorem ratio_pos {num den : Nat} (hn : 0 < num) (hd : 0 < den) : 0 < ratio num den := by
  unfold ratio; positivity

private theorem mul_eq_mul_of_ratio_eq {a b a' b' : Nat} (hb : 0 < b) (hb' : 0 < b')
    (h : ratio a b = ratio a' b') : a * b' = a' * b := by
  have hb₀ : (b : ℚ) ≠ 0 := by positivity
  have hb₁ : (b' : ℚ) ≠ 0 := by positivity
  unfold ratio at h
  rw [div_eq_div_iff hb₀ hb₁] at h
  exact_mod_cast h

private theorem scaleDown_pos {num den : Nat} (hd : 0 < den) (u : Int) :
    0 < (scaleDown num den u).2 := by
  unfold scaleDown
  split
  · exact Nat.mul_pos hd (Nat.two_pow_pos _)
  · exact hd

/-- Scaling divides by the power of two. -/
theorem ratio_scaleDown (num den : Nat) (u : Int) :
    ratio (scaleDown num den u).1 (scaleDown num den u).2 = ratio num den * 2 ^ (-u) := by
  unfold scaleDown ratio
  split
  · next h =>
    obtain ⟨n, rfl⟩ := Int.eq_ofNat_of_zero_le h
    simp only [Nat.pow_eq, Int.toNat_natCast, Nat.cast_mul, Nat.cast_pow, Nat.cast_ofNat, zpow_neg,
      zpow_natCast]
    field_simp
  · next h =>
    obtain ⟨n, hn⟩ := Int.eq_ofNat_of_zero_le (a := -u) (by omega)
    rw [hn]
    simp [div_eq_mul_inv, mul_right_comm]

private theorem log_ratio {num den : Nat} (hn : 0 < num) (hd : 0 < den) :
    Int.log 2 (ratio num den) = (if ratio num den < 2 ^ ((num.log2 : Int) - den.log2)
      then (num.log2 : Int) - den.log2 - 1 else (num.log2 : Int) - den.log2) := by
  have pos := ratio_pos hn hd
  have hd₀ : (0 : ℚ) < den := by positivity
  -- The quotient of two numbers lies between the powers of two one below and one above the
  -- difference of their logarithms, and it is the comparison that tells on which side.
  have low : (2 : ℚ) ^ ((num.log2 : Int) - den.log2 - 1) ≤ ratio num den := by
    have h₁ : ((2 ^ num.log2 : Nat) : ℚ) ≤ num := by exact_mod_cast Nat.log2_self_le hn.ne'
    have h₂ : (den : ℚ) ≤ ((2 ^ (den.log2 + 1) : Nat) : ℚ) := by
      exact_mod_cast (Nat.lt_log2_self (n := den)).le
    push_cast at h₁ h₂
    rw [ratio, le_div_iff₀ hd₀]
    calc (2 : ℚ) ^ ((num.log2 : Int) - den.log2 - 1) * den
        ≤ 2 ^ ((num.log2 : Int) - den.log2 - 1) * 2 ^ (den.log2 + 1) := by gcongr
      _ = 2 ^ num.log2 := by
        rw [← zpow_natCast, ← zpow_natCast, ← zpow_add₀ (by norm_num)]
        congr 1
        push_cast
        omega
      _ ≤ num := h₁
  have high : ratio num den < (2 : ℚ) ^ ((num.log2 : Int) - den.log2 + 1) := by
    have h₁ : (num : ℚ) < ((2 ^ (num.log2 + 1) : Nat) : ℚ) := by
      exact_mod_cast Nat.lt_log2_self (n := num)
    have h₂ : ((2 ^ den.log2 : Nat) : ℚ) ≤ den := by exact_mod_cast Nat.log2_self_le hd.ne'
    push_cast at h₁ h₂
    rw [ratio, div_lt_iff₀ hd₀]
    calc (num : ℚ) < 2 ^ (num.log2 + 1) := h₁
      _ = 2 ^ ((num.log2 : Int) - den.log2 + 1) * 2 ^ den.log2 := by
        rw [← zpow_natCast, ← zpow_natCast, ← zpow_add₀ (by norm_num)]
        congr 1
        push_cast
        omega
      _ ≤ 2 ^ ((num.log2 : Int) - den.log2 + 1) * den := by gcongr
  have h₁ := (Int.zpow_le_iff_le_log (b := 2) (by norm_num) pos).1
    (by rw [Nat.cast_ofNat]; exact low)
  have h₂ := (Int.lt_zpow_iff_log_lt (b := 2) (by norm_num) pos).1
    (by rw [Nat.cast_ofNat]; exact high)
  have h₃ := Int.lt_zpow_iff_log_lt (b := 2) (x := (num.log2 : Int) - den.log2) (by norm_num) pos
  rw [Nat.cast_ofNat] at h₃
  split
  · next h =>
    have := h₃.1 h
    omega
  · next h =>
    have := mt h₃.2 h
    omega

/-- The unit is settled by the binary logarithm of the quotient. -/
theorem unitExponent_eq {num den : Nat} (hn : 0 < num) (hd : 0 < den) :
    unitExponent num den = max (Int.log 2 (ratio num den) - 52) (-1074) := by
  rw [log_ratio hn hd]
  unfold unitExponent
  simp only [Nat.pow_eq]
  have scaled := ratio_scaleDown num den ((num.log2 : Int) - den.log2 - 52)
  have pos : 0 < (scaleDown num den ((num.log2 : Int) - den.log2 - 52)).2 := scaleDown_pos hd _
  set p := scaleDown num den ((num.log2 : Int) - den.log2 - 52) with hp
  have pos' : (0 : ℚ) < p.2 := by exact_mod_cast pos
  have test : p.1 < 2 ^ 52 * p.2 ↔ ratio num den < 2 ^ ((num.log2 : Int) - den.log2) := by
    have shift : (2 : ℚ) ^ ((num.log2 : Int) - den.log2) =
        2 ^ 52 * 2 ^ ((num.log2 : Int) - den.log2 - 52) := by
      rw [← zpow_natCast, ← zpow_add₀ (by norm_num)]
      congr 1
      push_cast
      omega
    rw [shift, ← div_lt_iff₀ (by positivity), div_eq_mul_inv, ← zpow_neg, ← scaled, ratio,
      div_lt_iff₀ pos']
    exact_mod_cast Iff.rfl
  simp only [test]
  split
  · congr 1
    omega
  · rfl

/-- Rounding sees nothing of a quotient but its value. -/
theorem magnitudeBits_congr {num den num' den' : Nat} (hn : 0 < num) (hd : 0 < den) (hn' : 0 < num')
    (hd' : 0 < den') (h : ratio num den = ratio num' den') :
    magnitudeBits num den = magnitudeBits num' den' := by
  have unit : unitExponent num den = unitExponent num' den' := by
    rw [unitExponent_eq hn hd, unitExponent_eq hn' hd', h]
  unfold magnitudeBits
  simp only [unit]
  congr 2
  apply roundHalfEven_congr (scaleDown_pos hd _) (scaleDown_pos hd' _)
  apply mul_eq_mul_of_ratio_eq (scaleDown_pos hd _) (scaleDown_pos hd' _)
  rw [ratio_scaleDown, ratio_scaleDown, h]

/-- The logarithm of a significand with its exponent. -/
theorem log_significand {m : Nat} {e : Int} (pos : 0 < m) :
    Int.log 2 ((m : ℚ) * 2 ^ e) = m.log2 + e := by
  have value : (0 : ℚ) < m * 2 ^ e := by positivity
  have low := Int.zpow_le_iff_le_log (b := 2) (x := m.log2 + e) (by norm_num) value
  have high := Int.lt_zpow_iff_log_lt (b := 2) (x := m.log2 + e + 1) (by norm_num) value
  rw [Nat.cast_ofNat, zpow_add₀ (by norm_num), zpow_natCast,
    mul_le_mul_iff_of_pos_right (by positivity)] at low
  rw [Nat.cast_ofNat, add_right_comm, zpow_add₀ (by norm_num),
    mul_lt_mul_iff_of_pos_right (by positivity)] at high
  have h₁ : ((2 ^ m.log2 : Nat) : ℚ) ≤ m := by exact_mod_cast Nat.log2_self_le pos.ne'
  have h₂ : (m : ℚ) < ((2 ^ (m.log2 + 1) : Nat) : ℚ) := by exact_mod_cast Nat.lt_log2_self (n := m)
  push_cast at h₁ h₂
  have := low.1 h₁
  have := high.1 (by exact_mod_cast h₂)
  omega

/-- A number of the format is rounded to its own bits. -/
theorem magnitudeBits_exact {num den m : Nat} {e : Int} (hd : 0 < den) (h : IsSignificand m e)
    (pos : 0 < m) (value : ratio num den = m * 2 ^ e) :
    magnitudeBits num den = magnitude m e := by
  have low := h.lt
  have least := h.least
  have greatest := h.greatest
  have hn : 0 < num := by
    have : 0 < ratio num den := by rw [value]; positivity
    unfold ratio at this
    by_contra hno
    simp [Nat.eq_zero_of_not_pos hno] at this
  have unit : unitExponent num den = e := by
    rw [unitExponent_eq hn hd, value, log_significand pos]
    rcases h.normal with normal | rfl
    · rw [log2_eq normal h.lt]
      omega
    · have := (Nat.log2_lt pos.ne').2 h.lt
      omega
  have scaled := ratio_scaleDown num den e
  rw [value, mul_assoc, ← zpow_add₀ (by norm_num), add_neg_cancel, zpow_zero, mul_one] at scaled
  have exact : (scaleDown num den e).1 = m * (scaleDown num den e).2 := by
    have whole : ratio (scaleDown num den e).1 (scaleDown num den e).2 = ratio m 1 := by
      rw [scaled]
      simp [ratio]
    have := mul_eq_mul_of_ratio_eq (scaleDown_pos hd e) Nat.one_pos whole
    omega
  simp only [magnitudeBits, unit, exact, roundHalfEven_mul_self m (scaleDown_pos hd e)]
  simp only [infinityBits, magnitude, Nat.pow_eq]
  omega

end TextTags.Number
