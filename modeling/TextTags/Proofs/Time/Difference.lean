import TextTags.Proofs.Number.Arithmetic
import TextTags.Proofs.Time.Stamp

/-!
# Differences of times

The difference of two times is held in seconds, and its milliseconds are cut toward zero when it is
added. Division by a thousand and multiplication by it are rounded one after the other; where the
quotient keeps all places of the difference nothing is lost, and elsewhere at most a millisecond.
-/

namespace TextTags

open Number

namespace Number

/-- A natural number shifted to have 53 binary places. -/
def aligned (n : Nat) : Nat := n * 2 ^ (52 - n.log2)

/-- What comes back of a number of 53 places that is divided by a thousand, which leaves it one
place fewer, and multiplied by it. -/
def shortened (x : Nat) : Nat := roundHalfEven (1000 * roundHalfEven (512 * x) 1000) 512

/-- The whole milliseconds that come back of a number of milliseconds. The quotient has all places
if the number, scaled to lie between 512 and 1024, is below 1000, and else one place fewer. -/
def restored (n : Nat) : Nat :=
  if 64 * n < 125 * 2 ^ n.log2 then n else shortened (aligned n) / 2 ^ (52 - n.log2)

private theorem aligned_bounds {n : Nat} (pos : 0 < n) (small : n < 2 ^ 53) :
    2 ^ 52 ≤ aligned n ∧ aligned n < 2 ^ 53 := by
  have places := (Nat.log2_lt pos.ne').2 small
  have low := Nat.log2_self_le pos.ne'
  have high := Nat.lt_log2_self (n := n)
  have split : 2 ^ n.log2 * 2 ^ (52 - n.log2) = 2 ^ 52 := by
    rw [← Nat.pow_add]
    congr 1
    omega
  have split' : 2 ^ (n.log2 + 1) * 2 ^ (52 - n.log2) = 2 ^ 53 := by
    rw [← Nat.pow_add]
    congr 1
    omega
  exact ⟨split ▸ Nat.mul_le_mul_right _ low,
    split' ▸ Nat.mul_lt_mul_of_pos_right high (Nat.two_pow_pos _)⟩

/-- The bound on a number is one on the number with all its places. -/
theorem aligned_short_iff {n : Nat} (pos : 0 < n) (small : n < 2 ^ 53) :
    64 * n < 125 * 2 ^ n.log2 ↔ 64 * aligned n < 125 * 2 ^ 52 := by
  have places := (Nat.log2_lt pos.ne').2 small
  have split : 2 ^ n.log2 * 2 ^ (52 - n.log2) = 2 ^ 52 := by
    rw [← Nat.pow_add]
    congr 1
    omega
  rw [aligned, ← Nat.mul_assoc, ← split, ← Nat.mul_assoc]
  exact (Nat.mul_lt_mul_right (Nat.two_pow_pos _)).symm

/-- Rounding leaves at most a half. -/
theorem roundHalfEven_near (num den : Nat) (hd : 0 < den) :
    2 * num ≤ 2 * (den * roundHalfEven num den) + den ∧
      2 * (den * roundHalfEven num den) ≤ 2 * num + den := by
  have parts := Nat.div_add_mod num den
  have small := Nat.mod_lt num hd
  have next : den * (num / den + 1) = den * (num / den) + den := Nat.mul_succ _ _
  unfold roundHalfEven
  dsimp only
  split
  · omega
  · split
    · rcases Nat.mod_two_eq_zero_or_one (num / den) with even | odd
      · rw [even, Nat.add_zero]
        omega
      · rw [odd, next]
        omega
    · rw [next]
      omega

/-- With all its places the quotient leads back to the number. -/
theorem roundHalfEven_restores {x : Nat} (q : Nat) (near : 2 * (1000 * q) ≤ 2 * (1024 * x) + 1000)
    (near' : 2 * (1024 * x) ≤ 2 * (1000 * q) + 1000) : roundHalfEven (1000 * q) 1024 = x := by
  unfold roundHalfEven
  dsimp only
  split
  · omega
  · split <;> omega

private theorem shortened_near {x : Nat} (high : x < 2 ^ 53) :
    x ≤ shortened x + 1 ∧ shortened x ≤ x + 1 ∧ shortened x < 2 ^ 53 := by
  have quotient := roundHalfEven_near (512 * x) 1000 (by decide)
  have product := roundHalfEven_near (1000 * roundHalfEven (512 * x) 1000) 512 (by decide)
  rcases Nat.lt_or_ge x (2 ^ 53 - 1) with below | last
  · unfold shortened
    omega
  · -- The largest number of 53 places loses one.
    obtain rfl : x = 2 ^ 53 - 1 := by omega
    decide +kernel

private theorem restored_near {n : Nat} (small : n < 2 ^ 53) :
    n ≤ restored n + 1 ∧ restored n ≤ n + 1 := by
  unfold restored
  split
  · omega
  · next long =>
    have pos : 0 < n := by
      by_contra zero
      obtain rfl : n = 0 := by omega
      exact long (by decide)
    have near := shortened_near (aligned_bounds pos small).2
    have unit := Nat.two_pow_pos (52 - n.log2)
    unfold aligned at near ⊢
    generalize shortened (n * 2 ^ (52 - n.log2)) = s at near ⊢
    generalize 2 ^ (52 - n.log2) = u at near unit ⊢
    constructor
    · have whole : n - 1 ≤ s / u := by
        rw [Nat.le_div_iff_mul_le unit, Nat.sub_mul]
        omega
      omega
    · rw [Nat.div_le_iff_le_mul_add_pred unit, Nat.mul_add, Nat.mul_comm u n]
      omega

/-- An integer of 53 places as a number. -/
theorem isFinite_ofInt_aligned {n : Int} (hne : 0 < n.natAbs) (small : n.natAbs < 2 ^ 53) :
    IsFinite (ofInt n) (n < 0) (aligned n.natAbs) (-(52 - n.natAbs.log2 : Nat)) := by
  have bounds := aligned_bounds hne small
  have significand : IsSignificand (aligned n.natAbs) (-(52 - n.natAbs.log2 : Nat)) :=
    ⟨bounds.2, by omega, by omega, .inl bounds.1⟩
  have value : ratio n.natAbs 1 = aligned n.natAbs * 2 ^ (-(52 - n.natAbs.log2 : Nat) : Int) := by
    rw [ratio, aligned, zpow_neg, zpow_natCast]
    push_cast
    field_simp
  have bits := magnitudeBits_exact (by decide) significand (by omega) value
  have number : ofInt n = ofMagnitudeBits (n < 0) (magnitudeBits n.natAbs 1) := by
    rw [ofInt, ofRatio, if_neg hne.ne']
  obtain ⟨m, e, parts, same⟩ := exists_isFinite_ofMagnitudeBits (decide (n < 0))
    (magnitude_lt significand)
  obtain ⟨rfl, rfl⟩ := eq_of_magnitude_eq parts.significand significand same
  rw [number, bits]
  exact parts

namespace IsFinite

variable {x : Float} {negative : Bool} {m j : Nat}

/-- Where the quotient has all places the product is the number again. -/
theorem thousandth_short (h : IsFinite x negative m (-j)) (normal : 2 ^ 52 ≤ m) (places : j ≤ 52)
    (short : 64 * m < 125 * 2 ^ 52) : IsFinite (x / 1000.0 * 1000.0) negative m (-j) := by
  have value : roundHalfEven (m * 2 ^ 53) (1000 * 2 ^ 43 * 2 ^ 0) = roundHalfEven (1024 * m) 1000 :=
    roundHalfEven_congr (by decide) (by decide) (by omega)
  have near := roundHalfEven_near (1024 * m) 1000 (by decide)
  have quotient := h.div isFinite_thousand (k := 0) normal (by decide) (by omega)
    (by rw [value]; omega) (by omega) (by omega)
  rw [value] at quotient
  generalize roundHalfEven (1024 * m) 1000 = q at near quotient
  have value' : roundHalfEven (q * (1000 * 2 ^ 43)) (2 ^ 53) = m :=
    (roundHalfEven_congr (by decide) (by decide) (by omega)).trans
      (roundHalfEven_restores q near.2 near.1)
  have product := quotient.mul isFinite_thousand (k := 53) (by omega) (by rw [value']; omega)
    (by omega) (by omega)
  have exponent : -(j : Int) - -43 - 53 + (0 : Nat) + -43 + (53 : Nat) = -j := by omega
  rwa [value', exponent, Bool.xor_false, Bool.xor_false] at product

/-- Where the quotient has a place fewer the product is near the number. -/
theorem thousandth_long (h : IsFinite x negative m (-j)) (places : j ≤ 52)
    (long : 125 * 2 ^ 52 ≤ 64 * m) :
    IsFinite (x / 1000.0 * 1000.0) negative (shortened m) (-j) := by
  have small := h.significand.lt
  have value : roundHalfEven (m * 2 ^ 53) (1000 * 2 ^ 43 * 2 ^ 1) = roundHalfEven (512 * m) 1000 :=
    roundHalfEven_congr (by decide) (by decide) (by omega)
  have near := roundHalfEven_near (512 * m) 1000 (by decide)
  have quotient := h.div isFinite_thousand (k := 1) (by omega) (by decide) (by omega)
    (by rw [value]; omega) (by omega) (by omega)
  rw [value] at quotient
  have value' :
      roundHalfEven (roundHalfEven (512 * m) 1000 * (1000 * 2 ^ 43)) (2 ^ 52) = shortened m :=
    roundHalfEven_congr (by decide) (by decide) (by omega)
  have product := quotient.mul isFinite_thousand (k := 52) (by omega)
    (by rw [value']; exact (shortened_near small).2.2) (by omega) (by omega)
  have exponent : -(j : Int) - -43 - 53 + (1 : Nat) + -43 + (52 : Nat) = -j := by omega
  rwa [value', exponent, Bool.xor_false, Bool.xor_false] at product

/-- The number without its fraction, if it is within 53 places. -/
theorem truncate_eq (h : IsFinite x negative m (-j)) :
    truncate x = signed negative (m / 2 ^ j) := by
  have small := h.significand.lt
  have whole : wholePart m (-j) = m / 2 ^ j := by
    unfold wholePart
    split
    · obtain rfl : j = 0 := by omega
      simp
    · simp
  have size : m / 2 ^ j ≤ m := Nat.div_le_self _ _
  rw [truncate, toWholeBy, h.decode]
  dsimp only
  rw [whole]
  generalize m / 2 ^ j = w at size
  unfold clampInt64 signed minInt64 maxInt64
  simp only [Nat.pow_eq]
  split <;> omega

end IsFinite

end Number

open Number

/-- The whole milliseconds of an integer divided by a thousand. -/
theorem Duration.millis_ofInt {n : Int} (small : n.natAbs < 2 ^ 53) :
    (Duration.mk (ofInt n / 1000.0)).millis = signed (n < 0) (restored n.natAbs) := by
  rcases Nat.eq_zero_or_pos n.natAbs with zero | hne
  · obtain rfl : n = 0 := by omega
    decide +kernel
  · have parts := isFinite_ofInt_aligned hne small
    have places := (Nat.log2_lt hne.ne').2 small
    have short := aligned_short_iff hne small
    unfold Duration.millis restored
    split
    · next few =>
      have back := parts.thousandth_short (aligned_bounds hne small).1 (by omega) (short.1 few)
      rw [back.truncate_eq, aligned, Nat.mul_div_cancel _ (Nat.two_pow_pos _)]
    · next many =>
      rw [(parts.thousandth_long (by omega) (by omega)).truncate_eq]

namespace Time

variable {a b : Time} {d : Duration}

private theorem since?_eq_some (fits : fitsInt64 (a.millis.toInt - b.millis.toInt)) :
    a.since? b = some ⟨ofInt (a.millis.toInt - b.millis.toInt) / 1000.0⟩ := by
  rw [since?]
  exact if_pos fits

private theorem toInt_plus (b : Time) (d : Duration) :
    (b.plus d).millis.toInt = clampInt64 (b.millis.toInt + d.millis) := by
  unfold plus clampInt64 minInt64 maxInt64
  simp only [Nat.pow_eq]
  exact Int64.toInt_ofInt_of_le (by omega) (by omega)

private theorem plus_eq_of_millis (h : d.millis = a.millis.toInt - b.millis.toInt) :
    b.plus d = a := by
  have fits := fitsInt64_iff.1 (fitsInt64_toInt a.millis)
  have sum : (b.plus d).millis.toInt = a.millis.toInt := by
    rw [toInt_plus, h, clampInt64]
    omega
  exact congrArg Time.mk (Int64.toInt_inj.1 sum)

private theorem natAbs_plus_le (h : (d.millis - (a.millis.toInt - b.millis.toInt)).natAbs ≤ 1) :
    ((b.plus d).millis.toInt - a.millis.toInt).natAbs ≤ 1 := by
  have fits := fitsInt64_iff.1 (fitsInt64_toInt a.millis)
  rw [toInt_plus, clampInt64]
  omega

/-- The difference of two times added to the second one leads back to the first one, up to a
millisecond. Nothing is lost if the difference, scaled to lie between 512 and 1024, is below 1000,
nor wherever rounding twice gives it back. -/
theorem plus_since (a b : Time) (fits : fitsInt64 (a.millis.toInt - b.millis.toInt))
    (small : (a.millis.toInt - b.millis.toInt).natAbs < 2 ^ 53) :
    ∃ d, a.since? b = some d ∧
      ((b.plus d).millis.toInt - a.millis.toInt).natAbs ≤ 1 ∧
      (64 * (a.millis.toInt - b.millis.toInt).natAbs <
          125 * 2 ^ (a.millis.toInt - b.millis.toInt).natAbs.log2 → b.plus d = a) ∧
      (restored (a.millis.toInt - b.millis.toInt).natAbs =
          (a.millis.toInt - b.millis.toInt).natAbs → b.plus d = a) := by
  have millis := Duration.millis_ofInt small
  have near := restored_near small
  have exact' (same : restored (a.millis.toInt - b.millis.toInt).natAbs =
      (a.millis.toInt - b.millis.toInt).natAbs) :
      b.plus ⟨ofInt (a.millis.toInt - b.millis.toInt) / 1000.0⟩ = a :=
    plus_eq_of_millis (by rw [millis, same, signed_natAbs])
  refine ⟨_, since?_eq_some fits, natAbs_plus_le ?_, fun short ↦ exact' (if_pos short), exact'⟩
  rw [millis]
  unfold signed
  split <;> next sign => simp only [decide_eq_true_eq] at sign; omega

/-- A negative difference of 53 places, the longest below the bound, is given back. -/
theorem plus_since_longest :
    let a : Time := ⟨-123456789⟩
    let b : Time := ⟨8796092898751210⟩
    fitsInt64 (a.millis.toInt - b.millis.toInt) ∧
      (a.millis.toInt - b.millis.toInt).natAbs = 125 * 2 ^ 46 - 1 ∧
      ∃ d, a.since? b = some d ∧ b.plus d = a := by
  intro a b
  have fits : fitsInt64 (a.millis.toInt - b.millis.toInt) := by decide +kernel
  have size : (a.millis.toInt - b.millis.toInt).natAbs = 125 * 2 ^ 46 - 1 := by decide +kernel
  obtain ⟨d, since, -, back, -⟩ := plus_since a b fits (by rw [size]; decide)
  exact ⟨fits, size, d, since, back (by rw [size]; decide +kernel)⟩

/-- A difference of 1001 milliseconds comes back as a second. -/
theorem plus_since_lost :
    ¬ ∀ a b : Time, fitsInt64 (a.millis.toInt - b.millis.toInt) →
      (a.millis.toInt - b.millis.toInt).natAbs < 2 ^ 53 →
      ∃ d, a.since? b = some d ∧ b.plus d = a := by
  intro claim
  obtain ⟨d, since, back⟩ := claim ⟨1001⟩ ⟨0⟩ (by decide) (by decide)
  obtain rfl := Option.some.inj ((since?_eq_some (by decide)).symm.trans since)
  have lost : (⟨0⟩ : Time).plus ⟨ofInt 1001 / 1000.0⟩ = ⟨1000⟩ := by decide +kernel
  exact absurd (lost.symm.trans back) (by decide)

end Time

end TextTags
