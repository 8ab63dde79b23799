import TextTags.Proofs.Number.Rounding

/-!
# Number text reads back

The text of a finite number is a numeral that stands for this number: the shortest digits are tested
by reading them, and where no such digits are found the number is written exactly.
-/

namespace TextTags.Number

open TextTags.Text

/-- The number of digits is one more than the power of ten of the first one. -/
theorem length_natDigits {n k : Nat} (low : 10 ^ k ≤ n) (high : n < 10 ^ (k + 1)) :
    (natDigits n).length = k + 1 := by
  have short := (Nat.length_toDigits_le_iff (b := 10) (by omega) (Nat.succ_pos k)).2 high
  have hne : 0 < (natDigits n).length := Nat.length_toDigits_pos
  rcases Nat.eq_zero_or_pos k with rfl | pos
  · unfold natDigits at *
    omega
  · have long := mt (Nat.length_toDigits_le_iff (b := 10) (by omega) pos).1 (Nat.not_lt.2 low)
    unfold natDigits at *
    omega

/-- A number is below the power of ten that has one more digit. -/
theorem lt_pow_length (n : Nat) : n < 10 ^ (natDigits n).length :=
  (Nat.length_toDigits_le_iff (by omega) Nat.length_toDigits_pos).1 (Nat.le_refl _)

private theorem pow_length_le {n : Nat} (pos : 0 < n) : 10 ^ ((natDigits n).length - 1) ≤ n := by
  rcases Nat.eq_zero_or_pos ((natDigits n).length - 1) with zero | more
  · rw [zero]
    exact pos
  · refine Nat.not_lt.1 fun small ↦ ?_
    have := (Nat.length_toDigits_le_iff (b := 10) (by omega) more).2 small
    unfold natDigits at *
    omega

/-- Zeros at the end add to the number of digits. -/
theorem length_natDigits_shift {n : Nat} (pos : 0 < n) (k : Nat) :
    (natDigits (n * 10 ^ k)).length = (natDigits n).length + k := by
  have hne : 0 < (natDigits n).length := Nat.length_toDigits_pos
  have split : (natDigits n).length + k = (natDigits n).length - 1 + k + 1 := by omega
  rw [split]
  apply length_natDigits
  · rw [Nat.pow_add]
    exact Nat.mul_le_mul_right _ (pow_length_le pos)
  · rw [← split, Nat.pow_add]
    exact Nat.mul_lt_mul_of_pos_right (lt_pow_length n) (by positivity)

/-- `digits * 10 ^ exponent` as a quotient. -/
def decimalQuotient (digits : Nat) (exponent : Int) : Nat × Nat :=
  if 0 ≤ exponent then (digits * 10 ^ exponent.toNat, 1) else (digits, 10 ^ (-exponent).toNat)

private theorem decimalQuotient_pos {digits : Nat} (pos : 0 < digits) (exponent : Int) :
    0 < (decimalQuotient digits exponent).1 ∧ 0 < (decimalQuotient digits exponent).2 := by
  unfold decimalQuotient
  split <;> constructor <;> positivity

private theorem ratio_decimalQuotient (digits : Nat) (exponent : Int) :
    ratio (decimalQuotient digits exponent).1 (decimalQuotient digits exponent).2 =
      digits * 10 ^ exponent := by
  unfold decimalQuotient ratio
  split
  · next h =>
    obtain ⟨n, rfl⟩ := Int.eq_ofNat_of_zero_le h
    simp
  · next h =>
    obtain ⟨n, hn⟩ := Int.eq_ofNat_of_zero_le (a := -exponent) (by omega)
    obtain rfl : exponent = -n := by omega
    simp [div_eq_mul_inv]

/-- The bits of a decimal number: infinite or zero far out, and else those of a quotient. -/
theorem decimalBits_eq {digits : Nat} (pos : 0 < digits) (exponent : Int) :
    decimalBits digits exponent =
      if 400 < exponent + (natDigits digits).length then infinityBits
      else if exponent + (natDigits digits).length < -400 then 0
      else magnitudeBits (decimalQuotient digits exponent).1
        (decimalQuotient digits exponent).2 := by
  unfold decimalBits decimalQuotient
  rw [if_neg pos.ne']
  by_cases whole : 0 ≤ exponent
  · simp only [if_pos whole]
    rfl
  · simp only [if_neg whole]
    rfl

/-- A decimal may be written with zeros at the end. -/
theorem decimalBits_shift (digits : Nat) (exponent : Int) (k : Nat) :
    decimalBits (digits * 10 ^ k) (exponent - k) = decimalBits digits exponent := by
  rcases Nat.eq_zero_or_pos digits with rfl | pos
  · simp [decimalBits]
  · have pos' : 0 < digits * 10 ^ k := by positivity
    have size : exponent - k + (natDigits (digits * 10 ^ k)).length =
        exponent + (natDigits digits).length := by
      rw [length_natDigits_shift pos]
      push_cast
      omega
    have p := decimalQuotient_pos pos exponent
    have p' := decimalQuotient_pos pos' (exponent - k)
    have value : ratio (decimalQuotient (digits * 10 ^ k) (exponent - k)).1
        (decimalQuotient (digits * 10 ^ k) (exponent - k)).2 =
          ratio (decimalQuotient digits exponent).1 (decimalQuotient digits exponent).2 := by
      rw [ratio_decimalQuotient, ratio_decimalQuotient, zpow_sub₀ (by norm_num), zpow_natCast]
      push_cast
      field_simp
    rw [decimalBits_eq pos, decimalBits_eq pos', size,
      magnitudeBits_congr p'.1 p'.2 p.1 p.2 value]

private theorem two_pow_lt_ten_pow : (2 : ℚ) ^ (1080 : Int) < 10 ^ (400 : Int) := by
  have eighth : (2 : ℚ) ^ 135 < 10 ^ 50 := by norm_num
  have := pow_lt_pow_left₀ eighth (by positivity) (n := 8) (by norm_num)
  rwa [← pow_mul, ← pow_mul, ← zpow_natCast, ← zpow_natCast] at this

private theorem pow_size_le {digits : Nat} (pos : 0 < digits) (exponent : Int) :
    (10 : ℚ) ^ (exponent + (natDigits digits).length - 1) ≤ digits * 10 ^ exponent := by
  have length : 0 < (natDigits digits).length := Nat.length_toDigits_pos
  have power : ((10 ^ ((natDigits digits).length - 1) : Nat) : ℚ) ≤ digits := by
    exact_mod_cast pow_length_le pos
  have split : exponent + (natDigits digits).length - 1 =
      ((natDigits digits).length - 1 : Nat) + exponent := by omega
  rw [split, zpow_add₀ (by norm_num), zpow_natCast]
  push_cast at power
  gcongr

private theorem lt_pow_size (digits : Nat) (exponent : Int) :
    (digits : ℚ) * 10 ^ exponent < 10 ^ (exponent + (natDigits digits).length) := by
  have power : (digits : ℚ) < ((10 ^ (natDigits digits).length : Nat) : ℚ) := by
    exact_mod_cast lt_pow_length digits
  rw [add_comm, zpow_add₀ (by norm_num), zpow_natCast]
  push_cast at power
  gcongr

private theorem IsSignificand.value_bounds {m : Nat} {e : Int} (h : IsSignificand m e)
    (pos : 0 < m) :
    (2 : ℚ) ^ (-1080 : Int) ≤ m * 2 ^ e ∧ (m : ℚ) * 2 ^ e ≤ 2 ^ (1080 : Int) := by
  have low : (1 : ℚ) ≤ m := by exact_mod_cast pos
  have high : (m : ℚ) ≤ 2 ^ 53 := by exact_mod_cast h.lt.le
  have least := h.least
  have greatest := h.greatest
  constructor
  · calc (2 : ℚ) ^ (-1080 : Int) ≤ 2 ^ e := zpow_le_zpow_right₀ (by norm_num) (by omega)
      _ ≤ m * 2 ^ e := le_mul_of_one_le_left (by positivity) low
  · calc (m : ℚ) * 2 ^ e ≤ 2 ^ 53 * 2 ^ e := by gcongr
      _ = 2 ^ (53 + e) := by rw [zpow_add₀ (by norm_num)]; norm_num
      _ ≤ 2 ^ (1080 : Int) := zpow_le_zpow_right₀ (by norm_num) (by omega)

/-- A number of the format has a size at which its power of ten is computed. -/
theorem size_bounds {digits m : Nat} {exponent e : Int} (h : IsSignificand m e) (pos : 0 < m)
    (hne : 0 < digits) (value : (digits : ℚ) * 10 ^ exponent = m * 2 ^ e) :
    -400 ≤ exponent + (natDigits digits).length ∧
      exponent + (natDigits digits).length ≤ 400 := by
  obtain ⟨low, high⟩ := h.value_bounds pos
  rw [← value] at low high
  constructor
  · refine not_lt.1 fun tiny ↦ lt_irrefl ((10 : ℚ) ^ (-400 : Int)) ?_
    calc (10 : ℚ) ^ (-400 : Int) < 2 ^ (-1080 : Int) := by
          rw [zpow_neg, zpow_neg]
          exact inv_strictAnti₀ (by positivity) two_pow_lt_ten_pow
      _ ≤ digits * 10 ^ exponent := low
      _ ≤ 10 ^ (exponent + (natDigits digits).length) := (lt_pow_size digits exponent).le
      _ ≤ 10 ^ (-400 : Int) := zpow_le_zpow_right₀ (by norm_num) tiny.le
  · refine not_lt.1 fun huge ↦ lt_irrefl ((2 : ℚ) ^ (1080 : Int)) ?_
    calc (2 : ℚ) ^ (1080 : Int) < 10 ^ (400 : Int) := two_pow_lt_ten_pow
      _ ≤ 10 ^ (exponent + (natDigits digits).length - 1) :=
        zpow_le_zpow_right₀ (by norm_num) (by omega)
      _ ≤ digits * 10 ^ exponent := pow_size_le hne exponent
      _ ≤ 2 ^ (1080 : Int) := high

/-- A decimal that is a number of the format is read as this number. -/
theorem decimalBits_exact {digits m : Nat} {exponent e : Int} (h : IsSignificand m e) (pos : 0 < m)
    (value : (digits : ℚ) * 10 ^ exponent = m * 2 ^ e) :
    decimalBits digits exponent = magnitude m e := by
  have hne : 0 < digits := by
    rw [Nat.pos_iff_ne_zero]
    rintro rfl
    have : (0 : ℚ) < m * 2 ^ e := by positivity
    simp [← value] at this
  obtain ⟨low, high⟩ := size_bounds h pos hne value
  rw [decimalBits_eq hne, if_neg (by omega), if_neg (by omega)]
  exact magnitudeBits_exact (decimalQuotient_pos hne exponent).2 h pos
    (by rw [ratio_decimalQuotient, value])

/-! ## Digits -/

private theorem digitsValue_eq (cs : List Char) : digitsValue cs = Nat.ofDigitChars 10 cs 0 := by
  rw [Nat.ofDigitChars_eq_foldl]
  rfl

/-- The digits of a number have its value. -/
theorem digitsValue_natDigits (n : Nat) : digitsValue (natDigits n) = n := by
  rw [digitsValue_eq]
  exact Nat.ofDigitChars_ten_toDigits

private theorem digitsValue_append_zeros (cs : List Char) (k : Nat) :
    digitsValue (cs ++ List.replicate k '0') = digitsValue cs * 10 ^ k := by
  rw [digitsValue_eq, Nat.ofDigitChars_append, Nat.ofDigitChars_replicate_zero, ← digitsValue_eq,
    Nat.mul_comm]

/-- Leading zeros do not change the value of digits. -/
theorem digitsValue_zeros_append (k : Nat) (cs : List Char) :
    digitsValue (List.replicate k '0' ++ cs) = digitsValue cs := by
  rw [digitsValue_eq, Nat.ofDigitChars_append, Nat.ofDigitChars_replicate_zero, Nat.mul_zero,
    ← digitsValue_eq]

/-- The digits of a number are digits of the ASCII set. -/
theorem isAsciiDigit_of_mem_natDigits {n : Nat} {c : Char} (h : c ∈ natDigits n) :
    isAsciiDigit c := by
  have := Nat.isDigit_of_mem_toDigits (by omega) (by omega) h
  simpa [isAsciiDigit, Char.isDigit, Char.le_def] using this

/-- The codes of the digits of the ASCII set. -/
theorem toNat_of_isAsciiDigit {c : Char} (h : isAsciiDigit c) : 48 ≤ c.toNat ∧ c.toNat ≤ 57 := by
  simpa [isAsciiDigit, Char.le_def, UInt32.le_iff_toNat_le] using h

/-- Digits after a sign are parted from it. -/
theorem takeSign_sign (negative : Bool) {digits : List Char} (hne : digits ≠ [])
    (h : ∀ c ∈ digits, isAsciiDigit c) (rest : List Char) :
    takeSign (floatChars.sign negative ++ (digits ++ rest)) = (negative, digits ++ rest) := by
  obtain ⟨c, cs, rfl⟩ := List.exists_cons_of_ne_nil hne
  have range := toNat_of_isAsciiDigit (h c List.mem_cons_self)
  cases negative
  · have minus : c ≠ '-' := by rintro rfl; simp at range
    have plus : c ≠ '+' := by rintro rfl; simp at range
    simp [floatChars.sign, takeSign, minus, plus]
  · rfl

/-- Digits are taken up to the first character that is none. -/
theorem takeWhile_digits {isDigit : Char → Bool} {digits : List Char}
    (h : ∀ c ∈ digits, isDigit c) (rest : List Char)
    (next : ∀ c ∈ rest.head?, isDigit c = false) :
    (digits ++ rest).takeWhile isDigit = digits ∧ (digits ++ rest).dropWhile isDigit = rest := by
  have stop : rest.takeWhile isDigit = [] ∧ rest.dropWhile isDigit = rest := by
    cases rest with
    | nil => simp
    | cons c cs => simp [next c rfl]
  rw [List.takeWhile_append_of_pos h, List.dropWhile_append_of_pos h, stop.1, stop.2]
  simp

/-- Digits without a point stand for a whole number. -/
theorem float?_digits (negative : Bool) {digits : List Char} (hne : digits ≠ [])
    (h : ∀ c ∈ digits, isAsciiDigit c) :
    float? (floatChars.sign negative ++ digits) =
      .some (ofDecimal negative (digitsValue digits) 0) := by
  have sign := takeSign_sign negative hne h []
  have whole := takeWhile_digits h [] (by simp)
  simp only [List.append_nil] at sign whole
  simp [float?, numeral?, sign, whole.1, whole.2, takeFraction, exponent?, hne, Numeral.value,
    signed, digitsValue]

/-- Digits after a point count for less. -/
theorem float?_point (negative : Bool) (digits fraction : List Char) (hne : digits ≠ [])
    (h : ∀ c ∈ digits, isAsciiDigit c) (hf : ∀ c ∈ fraction, isAsciiDigit c) :
    float? (floatChars.sign negative ++ (digits ++ '.' :: fraction)) =
      .some (ofDecimal negative (digitsValue (digits ++ fraction)) (-fraction.length)) := by
  have sign := takeSign_sign negative hne h ('.' :: fraction)
  have whole := takeWhile_digits h ('.' :: fraction) (by simp; rfl)
  have after := takeWhile_digits hf [] (by simp)
  simp only [List.append_nil] at after
  simp [float?, numeral?, sign, whole.1, whole.2, takeFraction, after.1, after.2, exponent?, hne,
    Numeral.value, signed, digitsValue]

/-! ## The text of a number -/

/-- A text is what is left of it when the zeros at its end are dropped, and these zeros. -/
theorem exists_append_zeros (cs : List Char) :
    ∃ k, cs = (cs.reverse.dropWhile (· == '0')).reverse ++ List.replicate k '0' := by
  have zeros : cs.reverse.takeWhile (· == '0') =
      List.replicate (cs.reverse.takeWhile (· == '0')).length '0' := by
    refine List.eq_replicate_length.2 fun c h ↦ ?_
    simpa using List.all_eq_true.1 List.all_takeWhile c h
  refine ⟨(cs.reverse.takeWhile (· == '0')).length, ?_⟩
  have whole := congrArg List.reverse (List.takeWhile_append_dropWhile (p := (· == '0'))
    (l := cs.reverse))
  rw [List.reverse_append, List.reverse_reverse] at whole
  rw [← List.reverse_replicate, ← zeros]
  exact whole.symm

/-- Digits with zeros before them are digits. -/
theorem isAsciiDigit_of_mem_padStart {width n : Nat} {c : Char}
    (h : c ∈ padStart width '0' (natDigits n)) : isAsciiDigit c := by
  rcases List.mem_append.1 h with h | h
  · rw [List.eq_of_mem_replicate h]
    rfl
  · exact isAsciiDigit_of_mem_natDigits h

/-- Digits with a point before the last `places` of them, without the zeros at the end. -/
theorem float?_withPoint (negative : Bool) {all : List Char} {places : Nat}
    (digits : ∀ c ∈ all, isAsciiDigit c) (long : places < all.length) :
    let whole := all.take (all.length - places)
    let fraction := ((all.drop (all.length - places)).reverse.dropWhile (· == '0')).reverse
    float? (floatChars.sign negative ++
        if fraction.isEmpty then whole else whole ++ '.' :: fraction) =
      some (ofMagnitudeBits negative (decimalBits (digitsValue all) (-places))) := by
  intro whole fraction
  obtain ⟨k, zeros⟩ := exists_append_zeros (all.drop (all.length - places))
  change _ = fraction ++ _ at zeros
  have parts : all = whole ++ fraction ++ List.replicate k '0' := by
    rw [List.append_assoc, ← zeros, List.take_append_drop]
  have nonempty : whole ≠ [] := by
    intro hno
    have := congrArg List.length hno
    simp only [whole, List.length_take, List.length_nil] at this
    omega
  have length : places = fraction.length + k := by
    have := congrArg List.length zeros
    simp only [List.length_drop, List.length_append, List.length_replicate] at this
    omega
  have exponent : -(places : Int) = -fraction.length - k := by omega
  have value : digitsValue all = digitsValue (whole ++ fraction) * 10 ^ k := by
    rw [← digitsValue_append_zeros, ← parts]
  have inWhole : ∀ c ∈ whole, isAsciiDigit c := fun c h ↦ digits c (List.mem_of_mem_take h)
  have inFraction : ∀ c ∈ fraction, isAsciiDigit c := fun c h ↦
    digits c (by rw [parts]; simp [h])
  rw [exponent, value, decimalBits_shift]
  split
  · next hno =>
    have hno : fraction = [] := by simpa using hno
    rw [float?_digits negative nonempty inWhole, ofDecimal_eq, hno]
    simp
  · rw [float?_point negative _ _ nonempty inWhole inFraction, ofDecimal_eq]

/-- Positional notation is read as the decimal it writes. -/
theorem float?_positional (negative : Bool) (d : Decimal) :
    float? (floatChars.sign negative ++ d.positional) =
      some (ofMagnitudeBits negative (decimalBits d.digits d.exponent)) := by
  unfold Decimal.positional
  split
  · next whole =>
    have digits : ∀ c ∈ natDigits d.digits ++ List.replicate d.exponent.toNat '0',
        isAsciiDigit c := by
      intro c h
      rcases List.mem_append.1 h with h | h
      · exact isAsciiDigit_of_mem_natDigits h
      · rw [List.eq_of_mem_replicate h]
        rfl
    have shift := decimalBits_shift d.digits d.exponent d.exponent.toNat
    rw [Int.toNat_of_nonneg whole, Int.sub_self] at shift
    rw [float?_digits negative (by simp [natDigits, Nat.toDigits_ne_nil]) digits, ofDecimal_eq,
      digitsValue_append_zeros, digitsValue_natDigits, shift]
  · next below =>
    have value : digitsValue (padStart ((-d.exponent).toNat + 1) '0' (natDigits d.digits)) =
        d.digits := by
      rw [padStart, digitsValue_zeros_append, digitsValue_natDigits]
    have long : (-d.exponent).toNat <
        (padStart ((-d.exponent).toNat + 1) '0' (natDigits d.digits)).length := by
      simp only [padStart, List.length_append, List.length_replicate]
      omega
    have read := float?_withPoint negative (fun c h ↦ isAsciiDigit_of_mem_padStart h) long
    have exponent : -((-d.exponent).toNat : Int) = d.exponent := by omega
    rw [value, exponent] at read
    exact read

/-- A decimal that was tested stands for the number. -/
theorem decimalBits_of_readsAs {x : Float} {negative : Bool} {m : Nat} {e : Int}
    (h : IsFinite x negative m e) {d : Decimal} (reads : d.readsAs x.abs) :
    decimalBits d.digits d.exponent = magnitude m e := by
  have same : (ofDecimal false d.digits d.exponent).toBits = x.abs.toBits := by
    simpa [Decimal.readsAs] using reads
  have bits := congrArg UInt64.toNat same
  rw [ofDecimal_eq, toBits_ofMagnitudeBits (decimalBits_le _ _), h.toBits_abs] at bits
  simpa [finiteBits] using bits

private theorem readsAs_of_shortOfLength {x : Float} {num den count : Nat} {lead : Int}
    {d : Decimal} (h : shortOfLength? x num den lead count = some d) : d.readsAs x := by
  simp only [shortOfLength?] at h
  split_ifs at h
  all_goals
    obtain rfl := Option.some.inj h
    assumption

private theorem value_exactly {m : Nat} {e : Int} :
    ((shortest.exactly m e).digits : ℚ) * 10 ^ (shortest.exactly m e).exponent = m * 2 ^ e := by
  unfold shortest.exactly
  split
  · next h =>
    obtain ⟨n, rfl⟩ := Int.eq_ofNat_of_zero_le h
    simp
  · next h =>
    obtain ⟨n, hn⟩ := Int.eq_ofNat_of_zero_le (a := -e) (by omega)
    obtain rfl : e = -n := by omega
    have ten : (10 : ℚ) ^ n = 5 ^ n * 2 ^ n := by rw [← mul_pow]; norm_num
    simp only [neg_neg, Nat.pow_eq, Int.toNat_natCast, Nat.cast_mul, Nat.cast_pow, Nat.cast_ofNat,
      zpow_neg, zpow_natCast, ten]
    field_simp

/-- The shortest decimal stands for the number, whether it was found or is the number itself. -/
theorem decimalBits_shortest {x : Float} {negative : Bool} {m : Nat} {e : Int}
    (h : IsFinite x negative m e) (pos : 0 < m) :
    decimalBits (shortest x.abs m e).digits (shortest x.abs m e).exponent = magnitude m e := by
  unfold shortest
  dsimp only
  split
  · next found =>
    obtain ⟨count, -, short⟩ := List.exists_of_findSome?_eq_some found
    exact decimalBits_of_readsAs h (readsAs_of_shortOfLength short)
  · exact decimalBits_exact h.significand pos value_exactly

private theorem wholePart_exact {m : Nat} {e : Int} (h : 0 ≤ e ∨ m % 2 ^ (-e).toNat = 0) :
    (wholePart m e : ℚ) * 10 ^ (0 : Int) = m * 2 ^ e := by
  unfold wholePart
  split
  · next whole =>
    obtain ⟨n, rfl⟩ := Int.eq_ofNat_of_zero_le whole
    simp
  · next below =>
    have divides := Nat.dvd_of_mod_eq_zero (h.resolve_left below)
    obtain ⟨n, hn⟩ := Int.eq_ofNat_of_zero_le (a := -e) (by omega)
    obtain rfl : e = -n := by omega
    obtain ⟨q, rfl⟩ := divides
    simp only [neg_neg, Nat.pow_eq, Int.toNat_natCast, zpow_neg, zpow_natCast]
    rw [Nat.mul_div_cancel_left _ (by positivity)]
    push_cast
    field_simp

/-- The whole number that a number without a fraction is stands for it. -/
theorem decimalBits_wholePart {x : Float} {negative : Bool} {m : Nat} {e : Int}
    (h : IsFinite x negative m e) (whole : 0 ≤ e ∨ m % 2 ^ (-e).toNat = 0) :
    decimalBits (wholePart m e) 0 = magnitude m e := by
  rcases Nat.eq_zero_or_pos m with rfl | pos
  · have least := h.significand.normal.resolve_left (by norm_num)
    have hno : wholePart 0 e = 0 := by simp [wholePart]
    rw [hno, decimalBits, if_pos rfl, magnitude, least]
    rfl
  · exact decimalBits_exact h.significand pos (wholePart_exact whole)

/-- The text of a finite number is read as the number. -/
theorem float?_floatChars {x : Float} (finite : x.isFinite) : float? (floatChars x) = some x := by
  obtain ⟨negative, m, e, h⟩ := exists_isFinite finite
  unfold floatChars isWhole
  simp only [h.decode]
  split
  · next test =>
    simp only [Bool.and_eq_true, Bool.or_eq_true, decide_eq_true_eq, beq_iff_eq] at test
    have read := float?_point negative (natDigits (wholePart m e)) ['0']
      (by simp [natDigits, Nat.toDigits_ne_nil]) (fun c h ↦ isAsciiDigit_of_mem_natDigits h)
      (by simp; rfl)
    have shift := decimalBits_shift (wholePart m e) 0 1
    have value := digitsValue_append_zeros (natDigits (wholePart m e)) 1
    rw [List.replicate_one, digitsValue_natDigits] at value
    rw [List.append_assoc, read, ofDecimal_eq, value]
    simp only [List.length_singleton]
    rw [← Int.zero_sub, shift, decimalBits_wholePart h test.1, h.ofMagnitudeBits_eq]
  · next test =>
    have pos : 0 < m := by
      rw [Nat.pos_iff_ne_zero]
      rintro rfl
      simp [wholePart, placeLimit] at test
    rw [float?_positional, decimalBits_shortest h pos, h.ofMagnitudeBits_eq]

/-- A character of a decimal number without its sign. -/
def isNumberChar (c : Char) : Bool := isAsciiDigit c || c == '.'

private theorem mem_positional {d : Decimal} {c : Char} (h : c ∈ d.positional) :
    isNumberChar c := by
  unfold Decimal.positional at h
  split at h
  · rcases List.mem_append.1 h with h | h
    · simp [isNumberChar, isAsciiDigit_of_mem_natDigits h]
    · rw [List.eq_of_mem_replicate h]
      rfl
  · dsimp only at h
    have digit {c : Char} {k : Nat} (h : c ∈ padStart k '0' (natDigits d.digits)) :
        isNumberChar c := by
      simp [isNumberChar, isAsciiDigit_of_mem_padStart h]
    split at h
    · exact digit (List.mem_of_mem_take h)
    · rcases List.mem_append.1 h with h | h
      · exact digit (List.mem_of_mem_take h)
      · rcases List.mem_cons.1 h with rfl | h
        · rfl
        · have := (List.dropWhile_suffix _).subset (List.mem_reverse.1 h)
          exact digit (List.mem_of_mem_drop (List.mem_reverse.1 this))

/-- The text of a finite number is a sign and a run of digits with at most a point. -/
theorem floatChars_eq {x : Float} (finite : x.isFinite) :
    ∃ negative body, floatChars x = floatChars.sign negative ++ body ∧
      ∀ c ∈ body, isNumberChar c := by
  obtain ⟨negative, m, e, h⟩ := exists_isFinite finite
  unfold floatChars
  simp only [h.decode]
  split
  · refine ⟨negative, natDigits (wholePart m e) ++ ['.', '0'], by rw [List.append_assoc], ?_⟩
    intro c mem
    rcases List.mem_append.1 mem with mem | mem
    · simp [isNumberChar, isAsciiDigit_of_mem_natDigits mem]
    · have : c = '.' ∨ c = '0' := by simpa using mem
      rcases this with rfl | rfl <;> rfl
  · exact ⟨negative, _, rfl, fun c mem ↦ mem_positional mem⟩

/-- The codes of the characters of numbers: a point and the digits. -/
theorem toNat_of_isNumberChar {c : Char} (h : isNumberChar c) :
    c.toNat = 46 ∨ 48 ≤ c.toNat ∧ c.toNat ≤ 57 := by
  rcases Bool.or_eq_true_iff.1 h with digit | point
  · exact .inr (toNat_of_isAsciiDigit digit)
  · obtain rfl := eq_of_beq point
    exact .inl rfl

end TextTags.Number
