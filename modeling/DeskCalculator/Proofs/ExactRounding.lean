import DeskCalculator.Binary64.Rounding

/-!
# Rounding what needs no rounding

A quotient that is exactly a magnitude is rounded to that magnitude
(`Magnitude.ofRatio?_units_mul`), in whatever terms the quotient is given.  The last
place that rounding chooses is then the magnitude's own: a significand has 53 bits, or
fewer at the exponent of the subnormals.
-/

namespace DeskCalculator

/-- Rounding depends on the quotient alone. -/
theorem nearestEven_mul_mul_left (num den : Nat) {factor : Nat} (hfactor : 0 < factor) :
    nearestEven (factor * num) (factor * den) = nearestEven num den := by
  have hdiv : factor * num / (factor * den) = num / den := Nat.mul_div_mul_left num den hfactor
  have hmod : factor * num % (factor * den) = factor * (num % den) := Nat.mul_mod_mul_left ..
  have hcompare : ∀ a b : Nat, factor * a < factor * b ↔ a < b := fun a b =>
    Nat.mul_lt_mul_left hfactor
  simp only [nearestEven, hdiv, hmod, Nat.mul_left_comm 2 factor, hcompare]

namespace Magnitude

theorem ofRatio?_mul_mul_left (num den : Nat) {factor : Nat} (hfactor : 0 < factor) :
    ofRatio? (factor * num) (factor * den) = ofRatio? num den := by
  have hdiv : factor * num / (factor * den) = num / den := Nat.mul_div_mul_left num den hfactor
  simp only [ofRatio?, hdiv, Nat.mul_assoc, nearestEven_mul_mul_left _ _ hfactor]

/-- The exponent of the last place is read off the size of the exact value. -/
theorem log2_units_sub (m : Magnitude) : m.units.log2 - 52 = m.exponent := by
  have hbelow := m.significand_lt
  unfold units
  rcases m.le_significand_or_exponent_eq_zero with hnormal | hsubnormal
  · have hpos : m.significand * Nat.pow 2 m.exponent ≠ 0 :=
      Nat.mul_ne_zero (by unfold binadeSize at hnormal; omega)
        (Nat.ne_of_gt (Nat.two_pow_pos m.exponent))
    have hlog : (m.significand * Nat.pow 2 m.exponent).log2 = 52 + m.exponent := by
      refine (Nat.log2_eq_iff hpos).mpr ⟨?_, ?_⟩
      · rw [Nat.pow_add]
        exact Nat.mul_le_mul_right _ hnormal
      · rw [Nat.add_right_comm, Nat.pow_add]
        exact Nat.mul_lt_mul_of_pos_right hbelow (Nat.two_pow_pos m.exponent)
    omega
  · rw [hsubnormal, Nat.pow_eq, Nat.pow_zero, Nat.mul_one]
    refine Nat.sub_eq_zero_of_le (Nat.le_of_lt_succ ?_)
    by_cases hzero : m.significand = 0
    · rw [hzero]
      decide
    · exact (Nat.log2_lt hzero).mpr hbelow

/-- An exact quotient is not changed. -/
theorem ofRatio?_units_mul (m : Magnitude) {den : Nat} (hden : 0 < den) :
    ofRatio? (m.units * den) den = some m := by
  have hfloor : m.units * den / den = m.units := Nat.mul_div_cancel m.units hden
  have hplace : 0 < den * Nat.pow 2 m.exponent :=
    Nat.mul_pos hden (Nat.two_pow_pos m.exponent)
  have hround : nearestEven (m.units * den) (den * Nat.pow 2 m.exponent) = m.significand := by
    rw [units, Nat.mul_assoc, Nat.mul_comm (Nat.pow 2 m.exponent) den]
    exact nearestEven_mul_left m.significand hplace
  simp only [ofRatio?, hfloor, log2_units_sub, hround, ← rank_eq, m.rank_lt, dif_pos]

end Magnitude

end DeskCalculator
