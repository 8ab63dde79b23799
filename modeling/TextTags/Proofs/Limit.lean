import TextTags.Host.Context
import TextTags.Proofs.Number.Range

/-!
# Seconds that make a time limit

A limit holds less than `2 ^ 64` seconds. A finite number of seconds from there on makes no limit,
and every other number makes one or asks for none.
-/

namespace TextTags

namespace Number

/-- The significand of a number of the format reaches `2 ^ 64` with the exponents from 12 on. -/
theorem IsSignificand.two_pow_64_le_iff {m : Nat} {e : Int} (h : IsSignificand m e) :
    (0 ≤ e ∧ 2 ^ 64 ≤ m * 2 ^ e.toNat) ↔ 12 ≤ e := by
  have low := h.lt
  constructor
  · rintro ⟨nonneg, reached⟩
    by_contra less
    have small : 2 ^ e.toNat ≤ 2 ^ 11 := Nat.pow_le_pow_right (by decide) (by omega)
    have : m * 2 ^ e.toNat ≤ m * 2 ^ 11 := Nat.mul_le_mul_left m small
    omega
  · intro high
    have large : 2 ^ 12 ≤ 2 ^ e.toNat := Nat.pow_le_pow_right (by decide) (by omega)
    have normal : 2 ^ 52 ≤ m := h.normal.resolve_right (by omega)
    refine ⟨by omega, ?_⟩
    calc 2 ^ 64 = 2 ^ 52 * 2 ^ 12 := rfl
      _ ≤ m * 2 ^ e.toNat := Nat.mul_le_mul normal large

private theorem le_iff {x y : Float} : x ≤ y ↔ x.toModel.unpack.le y.toModel.unpack = true :=
  decide_eq_true_iff

/-- Numbers are ordered as their unpacked forms. -/
theorem lt_iff {x y : Float} : x < y ↔ x.toModel.unpack.lt y.toModel.unpack = true :=
  decide_eq_true_iff

end Number

open Number Float.Model UnpackedFloat

namespace Limit

/-- The seconds from which on there is no limit: `2 ^ 64`. -/
def tooManySeconds : Float := 18446744073709551616.0

/-- A finite number that is not negative is too large for a limit exactly where its exponent is too
large. -/
theorem ofSeconds?_eq_none_iff {x : Float} {m : Nat} {e : Int} (h : IsFinite x false m e) :
    ofSeconds? x = none ↔ 12 ≤ e := by
  rw [← h.significand.two_pow_64_le_iff]
  have low := h.significand.lt
  have second : nanosPerSecond = 10 ^ 9 := rfl
  simp only [ofSeconds?, h.decode, Bool.false_and, Bool.false_or, decide_eq_true_eq, Nat.pow_eq,
    second]
  split
  · next nonneg =>
    simp only [ite_eq_left_iff, reduceCtorEq, imp_false, not_not, nonneg, true_and]
    exact Nat.mul_le_mul_right_iff (by decide)
  · next negative =>
    have rounded := roundHalfEven_le (m * 10 ^ 9) (2 ^ (-e).toNat)
    have divided : m * 10 ^ 9 / 2 ^ (-e).toNat ≤ m * 10 ^ 9 := Nat.div_le_self _ _
    simp only [ite_eq_left_iff, reduceCtorEq, imp_false, not_not, negative, false_and, iff_false]
    omega

private theorem unpack_tooManySeconds :
    tooManySeconds.toModel.unpack = .finite .positive (2 ^ 52) 12 (by decide) := rfl

private theorem tooManySeconds_le_iff {x : Float} {negative : Bool} {m : Nat} {e : Int}
    (h : IsFinite x negative m e) : tooManySeconds ≤ x ↔ negative = false ∧ 12 ≤ e := by
  have normal := h.significand.normal
  rw [le_iff, h.unpack, unpack_tooManySeconds]
  unfold unpacked
  split
  · cases negative with
    | true => simp [UnpackedFloat.le, UnpackedFloat.compare, signOf, Ordering.isLE]
    | false =>
      have order : ((compare (12 : Int) e).then (compare (2 ^ 52) m)).isLE = true ↔ 12 ≤ e := by
        rcases Int.lt_trichotomy 12 e with less | rfl | greater
        · simp [Int.compare_eq_lt.2 less, Ordering.then]
          omega
        · have : 2 ^ 52 ≤ m := normal.resolve_right (by omega)
          simpa [Ordering.then, Nat.isLE_compare]
        · simp [Int.compare_eq_gt.2 greater, Ordering.then]
          omega
      simpa [UnpackedFloat.le, UnpackedFloat.compare, signOf] using order
  · next zero =>
    have least := normal.resolve_left (by omega)
    simp [UnpackedFloat.le, UnpackedFloat.compare, Ordering.isLE]
    omega

end Limit

private theorem Number.IsFinite.pos_iff {x : Float} {negative : Bool} {m : Nat} {e : Int}
    (h : IsFinite x negative m e) : 0.0 < x ↔ negative = false ∧ 0 < m := by
  have zero : (0.0 : Float).toModel.unpack = .zero .positive := rfl
  rw [lt_iff, h.unpack, zero]
  unfold unpacked
  split
  · next pos => cases negative <;> simp [UnpackedFloat.lt, UnpackedFloat.compare, signOf, pos]
  · next hno => simp [UnpackedFloat.lt, UnpackedFloat.compare, hno]

/-- A time limit fails to be represented at the finite numbers of seconds from `2 ^ 64` on. -/
theorem TimeLimit.ofSeconds_eq_unrepresentable_iff (x : Float) :
    TimeLimit.ofSeconds x = .unrepresentable ↔ x.isFinite ∧ Limit.tooManySeconds ≤ x := by
  unfold ofSeconds
  by_cases finite : x.isFinite
  · obtain ⟨negative, m, e, parts⟩ := exists_isFinite finite
    have normal := parts.significand.normal
    simp only [parts.pos_iff, Limit.tooManySeconds_le_iff parts, finite, and_true, true_and]
    split
    · next positive =>
      obtain ⟨rfl, pos⟩ := positive
      rw [← Limit.ofSeconds?_eq_none_iff parts]
      cases Limit.ofSeconds? x <;> simp
    · next other =>
      simp only [reduceCtorEq, false_iff, not_and]
      rintro rfl
      simp only [true_and, Nat.not_lt] at other
      omega
  · simp [finite]

/-- The time limit where none is set is ten seconds. -/
theorem TimeLimit.ofSeconds_default : TimeLimit.ofSeconds defaultTimeout = .within ⟨10 ^ 10⟩ := by
  decide +kernel

end TextTags
