import Mathlib.Algebra.Order.Field.Power
import Mathlib.Data.Rat.Cast.Order
import Mathlib.Tactic.NormNum
import Mathlib.Tactic.Positivity
import Mathlib.Tactic.Ring
import UtilityCss.Decimal.Notation
import UtilityCss.Proofs.Digits

/-!
# The value of a decimal

A decimal stands for its coefficient times a power of ten. One number has many such forms, which differ by zeros at
the end of the coefficient. A number is representable if one of its forms has a coefficient within the precision and
if its first and its last digit count powers of ten that numbers have; of all the forms of such a number, rounding
takes away nothing but zeros.
-/

namespace UtilityCss.Decimal

variable {d e : Decimal}

def value (d : Decimal) : ℚ := (if d.negative then -1 else 1) * (d.coefficient * 10 ^ d.exponent)

theorem abs_value (d : Decimal) : |d.value| = d.coefficient * 10 ^ d.exponent := by
  have hsign : |(if d.negative then -1 else 1 : ℚ)| = 1 := by split <;> simp
  rw [value, abs_mul, hsign, one_mul, abs_of_nonneg (by positivity)]

theorem value_congr (hsign : d.negative = e.negative)
    (h : (d.coefficient : ℚ) * 10 ^ d.exponent = e.coefficient * 10 ^ e.exponent) : d.value = e.value := by
  rw [value, value, hsign, h]

theorem value_eq_zero_iff : d.value = 0 ↔ d.coefficient = 0 := by
  have hpower : (10 : ℚ) ^ d.exponent ≠ 0 := by positivity
  rw [← abs_eq_zero, abs_value, mul_eq_zero, or_iff_left hpower, Nat.cast_eq_zero]

theorem value_neg_iff (h : d.coefficient ≠ 0) : d.value < 0 ↔ d.negative = true := by
  have hpos : (0 : ℚ) < d.coefficient * 10 ^ d.exponent := by positivity
  cases hsign : d.negative with
  | true =>
    rw [value, if_pos hsign, neg_one_mul, neg_lt_zero]
    exact iff_of_true hpos rfl
  | false =>
    rw [value, if_neg (by rw [hsign]; decide), one_mul]
    exact iff_of_false hpos.le.not_gt Bool.false_ne_true

/-! ### Forms of one number -/

theorem cast_mul_zeros (a zeros : Nat) (m : Int) :
    ((a * 10 ^ zeros : Nat) : ℚ) * 10 ^ m = a * 10 ^ (m + zeros) := by
  rw [zpow_add₀ (by norm_num), zpow_natCast]
  push_cast
  ring

theorem eq_mul_of_le {a b : Nat} {m n : Int} (h : (a : ℚ) * 10 ^ m = b * 10 ^ n) (hle : n ≤ m) :
    ∃ zeros : Nat, m = n + zeros ∧ b = a * 10 ^ zeros := by
  obtain ⟨zeros, rfl⟩ := Int.le.dest hle
  have hpower : (10 : ℚ) ^ n ≠ 0 := by positivity
  rw [← cast_mul_zeros] at h
  exact ⟨zeros, rfl, (Nat.cast_injective (mul_right_cancel₀ hpower h)).symm⟩

theorem exists_zeros {a b : Nat} {m n : Int} (h : (a : ℚ) * 10 ^ m = b * 10 ^ n) :
    ∃ zeros : Nat, m = n + zeros ∧ b = a * 10 ^ zeros ∨ n = m + zeros ∧ a = b * 10 ^ zeros := by
  rcases le_total n m with hle | hle
  · obtain ⟨zeros, hexponent, hcoefficient⟩ := eq_mul_of_le h hle
    exact ⟨zeros, .inl ⟨hexponent, hcoefficient⟩⟩
  · obtain ⟨zeros, hexponent, hcoefficient⟩ := eq_mul_of_le h.symm hle
    exact ⟨zeros, .inr ⟨hexponent, hcoefficient⟩⟩

theorem value_without_zeros {zeros : Nat} (h : 10 ^ zeros ∣ d.coefficient) :
    value { d with coefficient := d.coefficient / 10 ^ zeros, exponent := d.exponent + zeros } = d.value := by
  have hform : ((d.coefficient / 10 ^ zeros : Nat) : ℚ) * 10 ^ (d.exponent + zeros) =
      d.coefficient * 10 ^ d.exponent := by
    rw [← cast_mul_zeros, Nat.div_mul_cancel h]
  exact value_congr rfl hform

theorem abs_value_lt_iff (h : d.coefficient ≠ 0) {power : Int} : |d.value| < 10 ^ power ↔ d.magnitude < power := by
  have hten : (1 : ℚ) < 10 := by norm_num
  rw [abs_value, magnitude]
  rcases le_or_gt power d.exponent with hle | hlt
  · have hone : (1 : ℚ) ≤ d.coefficient := by exact_mod_cast Nat.pos_of_ne_zero h
    have hpower : (10 : ℚ) ^ power ≤ 10 ^ d.exponent := zpow_le_zpow_right₀ hten.le hle
    have hlength := Nat.length_toDigits_pos (b := 10) (n := d.coefficient)
    refine iff_of_false (not_lt.2 (hpower.trans (le_mul_of_one_le_left (by positivity) hone))) ?_
    simp only [Int.ofNat_eq_natCast]
    omega
  · obtain ⟨places, rfl⟩ := Int.le.dest hlt.le
    rw [zpow_add₀ (by norm_num), zpow_natCast, mul_comm, mul_lt_mul_iff_right₀ (by positivity)]
    have hlength := Nat.length_toDigits_le_iff (b := 10) (n := d.coefficient) (k := places) (by decide) (by omega)
    have hcast : (d.coefficient : ℚ) < 10 ^ places ↔ d.coefficient < 10 ^ places := by exact_mod_cast Iff.rfl
    rw [hcast, ← hlength]
    simp only [Int.ofNat_eq_natCast]
    omega

/-! ### Representable numbers -/

/-- A number with no more digits than the precision, within the powers of ten that numbers have. -/
def IsRepresentable (number : ℚ) : Prop :=
  ∃ coefficient exponent : Int, number = coefficient * 10 ^ exponent ∧ |coefficient| < 10 ^ precision ∧
    leastExponent ≤ exponent ∧ |number| < 10 ^ (greatestMagnitude + 1)

theorem isRepresentable_value (hprecision : d.coefficient < 10 ^ precision) (hleast : leastExponent ≤ d.exponent)
    (hgreatest : d.magnitude ≤ greatestMagnitude) : IsRepresentable d.value := by
  have hless : |d.value| < 10 ^ (greatestMagnitude + 1) := by
    by_cases hzero : d.coefficient = 0
    · rw [value_eq_zero_iff.2 hzero, abs_zero]
      positivity
    · exact (abs_value_lt_iff hzero).2 (Int.lt_add_one_of_le hgreatest)
  refine ⟨(if d.negative then -1 else 1) * d.coefficient, d.exponent, ?_, ?_, hleast, hless⟩
  · rw [value]
    push_cast
    ring
  · have hsign : |(if d.negative then -1 else 1 : Int)| = 1 := by split <;> rfl
    rw [abs_mul, hsign, one_mul, Nat.abs_cast]
    exact_mod_cast hprecision

theorem isRepresentable_zero : IsRepresentable 0 := by
  have hzero : value { coefficient := 0 } = 0 := value_eq_zero_iff.2 rfl
  rw [← hzero]
  exact isRepresentable_value (by decide) (by decide) (by decide)

namespace IsRepresentable

theorem exists_form (h : IsRepresentable d.value) : ∃ (coefficient : Nat) (exponent : Int),
    (d.coefficient : ℚ) * 10 ^ d.exponent = coefficient * 10 ^ exponent ∧ coefficient < 10 ^ precision ∧
      leastExponent ≤ exponent := by
  obtain ⟨coefficient, exponent, hvalue, hprecision, hleast, -⟩ := h
  rw [Int.abs_eq_natAbs] at hprecision
  refine ⟨coefficient.natAbs, exponent, ?_, by exact_mod_cast hprecision, hleast⟩
  have hpower : (0 : ℚ) < 10 ^ exponent := by positivity
  rw [← abs_value, hvalue, abs_mul, abs_of_pos hpower, Nat.cast_natAbs, Int.cast_abs]

theorem magnitude_le (h : IsRepresentable d.value) (hne : d.coefficient ≠ 0) : d.magnitude ≤ greatestMagnitude := by
  obtain ⟨-, -, -, -, -, hless⟩ := h
  exact Int.le_of_lt_add_one ((abs_value_lt_iff hne).1 hless)

theorem dvd_coefficient (h : IsRepresentable d.value) : 10 ^ d.excess ∣ d.coefficient := by
  obtain ⟨coefficient, exponent, hvalue, hprecision, hleast⟩ := h.exists_form
  have hdigits (places : Nat) (hlt : d.coefficient < 10 ^ (precision + places)) :
      (Nat.toDigits 10 d.coefficient).length ≤ precision + places :=
    (Nat.length_toDigits_le_iff (by decide) (Nat.add_pos_left (by decide) places)).2 hlt
  obtain ⟨zeros, ⟨hexponent, hcoefficient⟩ | ⟨hexponent, hcoefficient⟩⟩ := exists_zeros hvalue
  · have hle : d.coefficient ≤ coefficient := hcoefficient ▸ Nat.le_mul_of_pos_right _ (by positivity)
    have hlength := hdigits 0 (hle.trans_lt hprecision)
    have hnone : d.excess = 0 := by
      rw [excess]
      omega
    rw [hnone]
    exact one_dvd _
  · have hlt : d.coefficient < 10 ^ (precision + zeros) := by
      rw [hcoefficient, Nat.pow_add]
      exact Nat.mul_lt_mul_of_pos_right hprecision (by positivity)
    have hlength := hdigits zeros hlt
    have hsome : d.excess ≤ zeros := by
      rw [excess]
      omega
    exact (Nat.pow_dvd_pow 10 hsome).trans (hcoefficient ▸ Nat.dvd_mul_left _ _)

end IsRepresentable

/-! ### Rounding -/

theorem roundHalfEven_of_dvd {num den : Nat} (hden : 0 < den) (h : den ∣ num) :
    roundHalfEven num den = num / den := by
  rw [roundHalfEven, Nat.mod_eq_zero_of_dvd h]
  exact if_pos (.inl hden)

theorem value_rounded (h : IsRepresentable d.value) : d.rounded.value = d.value := by
  have hexcess : (Nat.toDigits 10 d.coefficient).length - precision ≤ d.excess := Nat.le_max_left _ _
  have hdvd := (Nat.pow_dvd_pow 10 hexcess).trans h.dvd_coefficient
  rw [← value_without_zeros hdvd, rounded, ← roundHalfEven_of_dvd (by positivity) hdvd]
  rfl

theorem kept_eq (h : IsRepresentable d.value) (hne : d.coefficient ≠ 0) :
    d.kept = { d with coefficient := d.coefficient / 10 ^ d.excess, exponent := d.exponent + d.excess } := by
  have hdvd := h.dvd_coefficient
  have hlong : ¬(Nat.toDigits 10 d.coefficient).length < d.excess := by
    intro hlt
    have hless := (Nat.length_toDigits_le_iff (by decide) (Nat.zero_lt_of_lt hlt)).1 hlt.le
    exact absurd (Nat.le_of_dvd (Nat.pos_of_ne_zero hne) hdvd) (not_le.2 hless)
  rw [kept, if_neg hlong, ← roundHalfEven_of_dvd (by positivity) hdvd]
  rfl

theorem value_kept (h : IsRepresentable d.value) (hne : d.coefficient ≠ 0) : d.kept.value = d.value := by
  rw [kept_eq h hne, value_without_zeros h.dvd_coefficient]

end UtilityCss.Decimal
