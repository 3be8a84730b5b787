import DeskCalculator.Proofs.ExactRounding
import Mathlib.Algebra.Order.Field.Rat
import Mathlib.Data.Rat.Cast.Order
import Mathlib.Tactic.FieldSimp
import Mathlib.Tactic.Linarith
import Mathlib.Tactic.Positivity
import Mathlib.Tactic.Ring

/-!
# Rounding is to the nearest

What `Magnitude.ofRatio?` computes, said without its method: the finite magnitude nearest
to the exact quotient, of two equally near ones the one with an even significand, and none
exactly from `overflowBound` on (`roundsTo_orInfinite_ofRatio?`).

The method chooses a last place and rounds to a multiple of it.  The other magnitudes are
multiples of that place too, or they lie below the binade of the quotient, where the
binade's first number is nearer (`Magnitude.units_eq_mul_or_lt`); so a nearest whole
multiple is a nearest magnitude.

Two neighbours in rank are never both even, so the nearest magnitude is the only one
(`IsNearest.eq`).  Everything else about rounding follows from what nearest means: it keeps
order, and what it makes of a rational depends on the rational alone.
-/

namespace DeskCalculator

/-! ### Whole numbers -/

@[norm_cast]
theorem cast_two_pow (e : Nat) : ((Nat.pow 2 e : ℕ) : ℚ) = 2 ^ e := by
  rw [Nat.pow_eq, Nat.cast_pow, Nat.cast_ofNat]

theorem nearestEven_cases (num den : Nat) :
    (2 * (num % den) < den ∧ nearestEven num den = num / den) ∨
      (den < 2 * (num % den) ∧ nearestEven num den = num / den + 1) ∨
      (2 * (num % den) = den ∧ nearestEven num den = num / den + num / den % 2) := by
  simp only [nearestEven]
  split
  · next hbelow => exact .inl ⟨hbelow, rfl⟩
  · next hbelow =>
    split
    · next habove => exact .inr (.inl ⟨habove, rfl⟩)
    · next habove => exact .inr (.inr ⟨by omega, rfl⟩)

/-- Nearer than one half, or halfway and even. -/
theorem nearestEven_spec (num : Nat) {den : Nat} (hden : 0 < den) :
    |(num / den : ℚ) - nearestEven num den| < 1 / 2 ∨
      |(num / den : ℚ) - nearestEven num den| = 1 / 2 ∧ nearestEven num den % 2 = 0 := by
  have hpos : (0 : ℚ) < den := by exact_mod_cast hden
  have hwhole : (num : ℚ) = den * (num / den : ℕ) + (num % den : ℕ) := by
    exact_mod_cast (Nat.div_add_mod num den).symm
  have hquotient : (num / den : ℚ) = (num / den : ℕ) + (num % den : ℕ) / den := by
    rw [hwhole]
    field_simp
  have hpart : (0 : ℚ) ≤ (num % den : ℕ) / den := by positivity
  have hpart_lt : ((num % den : ℕ) : ℚ) / den < 1 := by
    rw [div_lt_one hpos]
    exact_mod_cast Nat.mod_lt num hden
  rw [hquotient]
  rcases nearestEven_cases num den with ⟨htwice, hn⟩ | ⟨htwice, hn⟩ | ⟨htwice, hn⟩
  · left
    have hhalf : ((num % den : ℕ) : ℚ) / den < 1 / 2 := by
      rw [div_lt_div_iff₀ hpos two_pos, one_mul, mul_comm]
      exact_mod_cast htwice
    rw [hn, add_sub_cancel_left, abs_of_nonneg hpart]
    exact hhalf
  · left
    have hhalf : (1 / 2 : ℚ) < (num % den : ℕ) / den := by
      rw [div_lt_div_iff₀ two_pos hpos, one_mul, mul_comm]
      exact_mod_cast htwice
    rw [hn, Nat.cast_add, Nat.cast_one, abs_lt]
    constructor <;> linarith
  · right
    have hhalf : ((num % den : ℕ) : ℚ) / den = 1 / 2 := by
      rw [div_eq_div_iff hpos.ne' two_ne_zero, one_mul, mul_comm]
      exact_mod_cast htwice
    constructor
    · rw [hn, hhalf]
      rcases Nat.mod_two_eq_zero_or_one (num / den) with heven | hodd
      · rw [heven, Nat.add_zero, add_sub_cancel_left, abs_of_pos one_half_pos]
      · rw [hodd, Nat.cast_add, Nat.cast_one, add_sub_add_left_eq_sub]
        norm_num
    · rw [hn]
      omega

theorem abs_sub_nearestEven_le (num : Nat) {den : Nat} (hden : 0 < den) :
    |(num / den : ℚ) - nearestEven num den| ≤ 1 / 2 := by
  rcases nearestEven_spec num hden with hlt | ⟨heq, -⟩
  · exact hlt.le
  · exact heq.le

/-- Another whole number is at least as far away, and no nearer than one half. -/
theorem half_le_abs_sub {w : ℚ} {n k : ℕ} (hnear : |w - n| ≤ 1 / 2) (hne : k ≠ n) :
    1 / 2 ≤ |w - k| := by
  have hapart : (1 : ℚ) ≤ |(n : ℚ) - k| := by
    exact_mod_cast Int.one_le_abs (show (n : ℤ) - k ≠ 0 by omega)
  have htriangle : |(n : ℚ) - k| ≤ |(n : ℚ) - w| + |w - k| := abs_sub_le (n : ℚ) w k
  rw [abs_sub_comm (n : ℚ) w] at htriangle
  linarith

/-- Rounding reaches an even bound from the middle before it on. -/
theorem two_mul_le_nearestEven_iff {num den n : Nat} (hden : 0 < den) :
    2 * n ≤ nearestEven num den ↔ (2 * n - 1 / 2 : ℚ) ≤ num / den := by
  have hnear := abs_le.mp (abs_sub_nearestEven_le num hden)
  constructor
  · intro h
    have hcast : (2 * n : ℚ) ≤ nearestEven num den := by exact_mod_cast h
    linarith
  · intro h
    by_contra hlt
    have hcast : (nearestEven num den : ℚ) + 1 ≤ 2 * n := by exact_mod_cast Nat.lt_of_not_le hlt
    have habove : (1 / 2 : ℚ) ≤ num / den - nearestEven num den := by linarith
    rcases nearestEven_spec num hden with hless | ⟨-, heven⟩
    · exact absurd (hless.trans_le habove) (le_abs_self _).not_gt
    · have hnext : (nearestEven num den : ℚ) + 1 = 2 * n := by linarith
      have hodd : nearestEven num den + 1 = 2 * n := by exact_mod_cast hnext
      omega

namespace Magnitude

/-! ### Order and parity of ranks -/

theorem exponent_mono {m m' : Magnitude} (h : m.rank ≤ m'.rank) : m.exponent ≤ m'.exponent :=
  Nat.sub_le_sub_right (Nat.div_le_div_right h) 1

/-- Below a larger exponent, every number is smaller. -/
theorem units_lt_of_exponent_lt (m : Magnitude) {e : Nat} (h : m.exponent < e) :
    m.units < binadeSize * Nat.pow 2 e :=
  calc m.units < 2 * binadeSize * Nat.pow 2 m.exponent :=
        Nat.mul_lt_mul_of_pos_right m.significand_lt (Nat.two_pow_pos m.exponent)
    _ = binadeSize * Nat.pow 2 (m.exponent + 1) := by
        simp only [Nat.pow_eq, Nat.pow_succ]
        ring
    _ ≤ binadeSize * Nat.pow 2 e := Nat.mul_le_mul_left _ (Nat.pow_le_pow_right (by decide) h)

theorem binadeSize_mul_le_units {m : Magnitude} (h : m.exponent ≠ 0) :
    binadeSize * Nat.pow 2 m.exponent ≤ m.units :=
  Nat.mul_le_mul_right _ (m.le_significand_or_exponent_eq_zero.resolve_right h)

/-- A larger rank is a larger number. -/
theorem units_lt_units {m m' : Magnitude} (h : m.rank < m'.rank) : m.units < m'.units := by
  rcases Nat.lt_or_eq_of_le (exponent_mono h.le) with hlt | heq
  · exact (m.units_lt_of_exponent_lt hlt).trans_le (binadeSize_mul_le_units (by omega))
  · have hsignificand : m.significand < m'.significand := by
      have hrank := m.rank_eq
      have hrank' := m'.rank_eq
      rw [heq] at hrank
      omega
    unfold units
    rw [heq]
    exact Nat.mul_lt_mul_of_pos_right hsignificand (Nat.two_pow_pos m'.exponent)

theorem eq_of_rank_eq {m m' : Magnitude} (h : m.rank = m'.rank) : m = m' := by
  cases m
  cases m'
  cases h
  rfl

theorem units_le_units_iff {m m' : Magnitude} : m.units ≤ m'.units ↔ m.rank ≤ m'.rank := by
  constructor
  · intro h
    by_contra hgt
    exact absurd (units_lt_units (Nat.lt_of_not_le hgt)) h.not_gt
  · intro h
    rcases Nat.lt_or_eq_of_le h with hlt | heq
    · exact (units_lt_units hlt).le
    · rw [eq_of_rank_eq heq]

theorem units_injective {m m' : Magnitude} (h : m.units = m'.units) : m = m' :=
  eq_of_rank_eq (Nat.le_antisymm (units_le_units_iff.mp h.le) (units_le_units_iff.mp h.ge))

/-- Exponents shift the rank by an even number. -/
theorem significand_mod_two (m : Magnitude) : m.significand % 2 = m.rank % 2 := by
  have hrank := m.rank_eq
  unfold binadeSize at hrank
  omega

/-! ### Magnitudes at a last place -/

/-- Every magnitude is a multiple of the place, or it lies below the first number that
    has it. -/
theorem units_eq_mul_or_lt (m : Magnitude) (e : Nat) :
    (∃ k, m.units = k * Nat.pow 2 e) ∨ e ≠ 0 ∧ m.units < binadeSize * Nat.pow 2 e := by
  rcases Nat.lt_or_ge m.exponent e with hlt | hge
  · exact .inr ⟨by omega, m.units_lt_of_exponent_lt hlt⟩
  · refine .inl ⟨m.significand * Nat.pow 2 (m.exponent - e), ?_⟩
    rw [units, Nat.mul_assoc]
    exact congrArg (m.significand * ·) (Nat.pow_sub_mul_pow 2 hge).symm

/-- The number whose rank rounding adds up.  Twice the size of a binade is the first number
    of the next one. -/
theorem units_of_rank_eq {m : Magnitude} {e n : Nat} (hrank : m.rank = binadeSize * e + n)
    (hn : n ≤ 2 * binadeSize) (hnormal : binadeSize ≤ n ∨ e = 0) :
    m.units = n * Nat.pow 2 e := by
  unfold units
  rcases Nat.lt_or_eq_of_le hn with hlt | rfl
  · have hexponent : m.exponent = e := by
      unfold exponent
      unfold binadeSize at hrank hlt hnormal ⊢
      omega
    have hsignificand : m.significand = n := by
      have := m.rank_eq
      rw [hexponent] at this
      omega
    rw [hexponent, hsignificand]
  · have hexponent : m.exponent = e + 1 := by
      unfold exponent
      unfold binadeSize at hrank ⊢
      omega
    have hsignificand : m.significand = binadeSize := by
      have := m.rank_eq
      rw [hexponent, Nat.mul_succ] at this
      omega
    rw [hexponent, hsignificand, Nat.pow_eq, Nat.pow_eq, Nat.pow_succ]
    ring

end Magnitude

/-! ### The last place that rounding chooses -/

/-- Before the last place stand 53 bits, or fewer at the exponent of the subnormals. -/
theorem bounds_of_log2_sub {floor e : Nat} (he : floor.log2 - 52 = e) :
    floor < 2 * binadeSize * Nat.pow 2 e ∧ (binadeSize * Nat.pow 2 e ≤ floor ∨ e = 0) := by
  have hbelow : ∀ k, binadeSize * Nat.pow 2 k = 2 ^ (52 + k) := fun k => by
    rw [binadeSize_eq, Nat.pow_eq, Nat.pow_eq, Nat.pow_add]
  constructor
  · calc floor < 2 ^ (floor.log2 + 1) := Nat.lt_log2_self
      _ ≤ 2 ^ (52 + e + 1) := Nat.pow_le_pow_right (by decide) (by omega)
      _ = 2 * binadeSize * Nat.pow 2 e := by
          rw [Nat.mul_assoc, hbelow, Nat.pow_succ']
  · rcases Nat.eq_zero_or_pos e with hzero | hpos
    · exact .inr hzero
    · have hlog : floor.log2 = 52 + e := by omega
      have hfloor : floor ≠ 0 := by
        rintro rfl
        rw [Nat.log2_zero] at hlog
        omega
      left
      rw [hbelow, ← hlog]
      exact Nat.log2_self_le hfloor

section

variable {num den e : Nat} (hden : 0 < den) (he : (num / den).log2 - 52 = e)
include hden he

theorem quotient_lt_of_place : (num / den : ℚ) < 2 * binadeSize * 2 ^ e := by
  have hlt := (Nat.div_lt_iff_lt_mul hden).mp (bounds_of_log2_sub he).1
  rw [div_lt_iff₀ (by exact_mod_cast hden)]
  exact_mod_cast hlt

theorem le_quotient_of_place (hnormal : e ≠ 0) : (binadeSize * 2 ^ e : ℚ) ≤ num / den := by
  have hle := (Nat.le_div_iff_mul_le hden).mp ((bounds_of_log2_sub he).2.resolve_right hnormal)
  rw [le_div_iff₀ (by exact_mod_cast hden)]
  exact_mod_cast hle

end

/-- The rounded significand may come out as the first one of the next binade. -/
theorem nearestEven_place_bounds {num den e : Nat} (he : (num / den).log2 - 52 = e) :
    nearestEven num (den * Nat.pow 2 e) ≤ 2 * binadeSize ∧
      (binadeSize ≤ nearestEven num (den * Nat.pow 2 e) ∨ e = 0) := by
  obtain ⟨hbelow, hnormal⟩ := bounds_of_log2_sub he
  have hle := nearestEven_le num (den * Nat.pow 2 e)
  have hge := le_nearestEven num (den * Nat.pow 2 e)
  rw [← Nat.div_div_eq_div_mul] at hle hge
  have hplace : 0 < Nat.pow 2 e := Nat.two_pow_pos e
  constructor
  · exact hle.trans ((Nat.div_lt_iff_lt_mul hplace).mpr hbelow)
  · exact hnormal.imp_left fun h => ((Nat.le_div_iff_mul_le hplace).mpr h).trans hge

/-! ### Multiples of the last place -/

section

variable {num den : Nat} (hden : 0 < den)

/-- Distances at a place are distances of whole numbers of it. -/
theorem abs_sub_mul_place (num den e k : Nat) :
    |(num / den : ℚ) - (k * Nat.pow 2 e : ℕ)|
      = |(num / (den * Nat.pow 2 e : ℕ) : ℚ) - k| * 2 ^ e := by
  have hplace : (0 : ℚ) < 2 ^ e := by positivity
  rw [← abs_of_pos hplace, ← abs_mul, sub_mul]
  push_cast
  rw [← div_div, div_mul_cancel₀ _ hplace.ne']

include hden

theorem place_pos (e : Nat) : 0 < den * Nat.pow 2 e := Nat.mul_pos hden (Nat.two_pow_pos e)

/-- No multiple of the place is nearer than the one that is rounded to. -/
theorem abs_sub_rounded_le (e k : Nat) :
    |(num / den : ℚ) - (nearestEven num (den * Nat.pow 2 e) * Nat.pow 2 e : ℕ)|
      ≤ |(num / den : ℚ) - (k * Nat.pow 2 e : ℕ)| := by
  have hnear := abs_sub_nearestEven_le num (place_pos hden e)
  rw [abs_sub_mul_place, abs_sub_mul_place]
  apply mul_le_mul_of_nonneg_right _ (by positivity)
  by_cases hk : k = nearestEven num (den * Nat.pow 2 e)
  · rw [hk]
  · exact hnear.trans (half_le_abs_sub hnear hk)

theorem even_of_rounded_tie {e k : Nat} (hk : k ≠ nearestEven num (den * Nat.pow 2 e))
    (htie : |(num / den : ℚ) - (nearestEven num (den * Nat.pow 2 e) * Nat.pow 2 e : ℕ)|
      = |(num / den : ℚ) - (k * Nat.pow 2 e : ℕ)|) :
    nearestEven num (den * Nat.pow 2 e) % 2 = 0 := by
  have hplace : (2 : ℚ) ^ e ≠ 0 := by positivity
  have hhalf := half_le_abs_sub (abs_sub_nearestEven_le num (place_pos hden e)) hk
  rw [abs_sub_mul_place, abs_sub_mul_place, mul_left_inj' hplace] at htie
  rcases nearestEven_spec num (place_pos hden e) with hless | ⟨-, heven⟩
  · exact absurd htie (by linarith)
  · exact heven

/-- What lies below the binade of the quotient is farther away than its first number. -/
theorem abs_sub_rounded_lt {e : Nat} (he : (num / den).log2 - 52 = e) (hnormal : e ≠ 0)
    {units : Nat} (hunits : units < binadeSize * Nat.pow 2 e) :
    |(num / den : ℚ) - (nearestEven num (den * Nat.pow 2 e) * Nat.pow 2 e : ℕ)|
      < |(num / den : ℚ) - units| := by
  have hbelow := le_quotient_of_place hden he hnormal
  have hunits' : (units : ℚ) < binadeSize * 2 ^ e := by exact_mod_cast hunits
  calc |(num / den : ℚ) - (nearestEven num (den * Nat.pow 2 e) * Nat.pow 2 e : ℕ)|
      ≤ |(num / den : ℚ) - (binadeSize * Nat.pow 2 e : ℕ)| := abs_sub_rounded_le hden e binadeSize
    _ = num / den - binadeSize * 2 ^ e := by
        push_cast
        exact abs_of_nonneg (sub_nonneg.mpr hbelow)
    _ < num / den - units := by linarith
    _ ≤ |(num / den : ℚ) - units| := le_abs_self _

end

/-! ### Nearest magnitudes -/

/-- The exact value. -/
def Magnitude.toRat (m : Magnitude) : ℚ := m.units / unitsPerOne

/-- No finite magnitude is nearer to the rational, and one that has another just as near
    beside it is even. -/
structure IsNearest (q : ℚ) (m : Magnitude) : Prop where
  le : ∀ other : Magnitude, |q - m.toRat| ≤ |q - other.toRat|
  even_of_tie : ∀ other : Magnitude, other ≠ m → |q - m.toRat| = |q - other.toRat| →
    m.significand % 2 = 0

theorem cast_unitsPerOne : (unitsPerOne : ℚ) = 2 ^ 1074 := by
  unfold unitsPerOne
  generalize 1074 = k
  exact cast_two_pow k

theorem unitsPerOne_pos : (0 : ℚ) < unitsPerOne := by
  rw [cast_unitsPerOne]
  positivity

theorem abs_div_sub_toRat (v : ℚ) (m : Magnitude) :
    |v / unitsPerOne - m.toRat| = |v - m.units| / unitsPerOne := by
  rw [Magnitude.toRat, ← sub_div, abs_div, abs_of_pos unitsPerOne_pos]

/-- Nearest can be decided by counting units. -/
theorem isNearest_of_units {v : ℚ} {m : Magnitude}
    (h : ∀ other : Magnitude, other ≠ m → |v - m.units| ≤ |v - other.units| ∧
      (|v - m.units| = |v - other.units| → m.significand % 2 = 0)) :
    IsNearest (v / unitsPerOne) m where
  le := by
    intro other
    rw [abs_div_sub_toRat, abs_div_sub_toRat, div_le_div_iff_of_pos_right unitsPerOne_pos]
    by_cases hother : other = m
    · rw [hother]
    · exact (h other hother).1
  even_of_tie := by
    intro other hother htie
    rw [abs_div_sub_toRat, abs_div_sub_toRat, div_left_inj' unitsPerOne_pos.ne'] at htie
    exact (h other hother).2 htie

/-- A nearest multiple of the last place is a nearest magnitude. -/
theorem isNearest_of_rank_eq {num den e : Nat} (hden : 0 < den)
    (he : (num / den).log2 - 52 = e) {m : Magnitude}
    (hrank : m.rank = binadeSize * e + nearestEven num (den * Nat.pow 2 e)) :
    IsNearest (num / den / unitsPerOne) m := by
  obtain ⟨hle, hnormal⟩ := nearestEven_place_bounds he
  have hunits := Magnitude.units_of_rank_eq hrank hle hnormal
  apply isNearest_of_units
  intro other hother
  rw [hunits]
  rcases other.units_eq_mul_or_lt e with ⟨k, hk⟩ | ⟨hbinade, hlt⟩
  · rw [hk]
    refine ⟨abs_sub_rounded_le hden e k, fun htie => ?_⟩
    have hne : k ≠ nearestEven num (den * Nat.pow 2 e) := by
      rintro rfl
      exact hother (Magnitude.units_injective (hk.trans hunits.symm))
    have heven := even_of_rounded_tie hden hne htie
    have hparity := m.significand_mod_two
    unfold binadeSize at hrank
    omega
  · have hcloser := abs_sub_rounded_lt hden he hbinade hlt
    exact ⟨hcloser.le, fun htie => absurd htie hcloser.ne⟩

/-! ### The nearest is unique, and grows with the rational -/

namespace Magnitude

theorem toRat_nonneg (m : Magnitude) : 0 ≤ m.toRat :=
  div_nonneg (Nat.cast_nonneg _) unitsPerOne_pos.le

theorem toRat_le_toRat_iff {m m' : Magnitude} : m.toRat ≤ m'.toRat ↔ m.rank ≤ m'.rank := by
  rw [toRat, toRat, div_le_div_iff_of_pos_right unitsPerOne_pos, Nat.cast_le, units_le_units_iff]

theorem toRat_lt_toRat {m m' : Magnitude} (h : m.rank < m'.rank) : m.toRat < m'.toRat :=
  lt_of_not_ge fun hle => absurd (toRat_le_toRat_iff.mp hle) h.not_ge

end Magnitude

namespace IsNearest

variable {q q' : ℚ} {m m' : Magnitude}

/-- A rational lies above the middle between its nearest magnitude and a smaller one. -/
theorem add_le_two_mul (h : IsNearest q m) (hlt : m'.rank < m.rank) :
    m'.toRat + m.toRat ≤ 2 * q := by
  have hbelow := Magnitude.toRat_lt_toRat hlt
  have hle := abs_le.mp (h.le m')
  rcases abs_cases (q - m'.toRat) with ⟨heq, -⟩ | ⟨heq, hneg⟩
  · linarith
  · linarith

theorem two_mul_le_add (h : IsNearest q m) (hlt : m.rank < m'.rank) :
    2 * q ≤ m.toRat + m'.toRat := by
  have habove := Magnitude.toRat_lt_toRat hlt
  have hle := abs_le.mp (h.le m')
  rcases abs_cases (q - m'.toRat) with ⟨heq, hpos⟩ | ⟨heq, -⟩
  · linarith
  · linarith

/-- Two that are equally near are both even, so another lies between them, and is nearer. -/
theorem not_rank_lt (h : IsNearest q m) (h' : IsNearest q m') : ¬ m.rank < m'.rank := by
  intro hlt
  have htie : |q - m.toRat| = |q - m'.toRat| := le_antisymm (h.le m') (h'.le m)
  have hne : m' ≠ m := by
    rintro rfl
    exact Nat.lt_irrefl _ hlt
  have heven := h.even_of_tie m' hne htie
  have heven' := h'.even_of_tie m hne.symm htie.symm
  rw [Magnitude.significand_mod_two] at heven heven'
  have hrank := m'.rank_lt
  let between : Magnitude := ⟨m.rank + 1, by omega⟩
  have habove : m.rank < between.rank := Nat.lt_succ_self m.rank
  have hbelow : between.rank < m'.rank := by
    show m.rank + 1 < m'.rank
    omega
  have hleft := h.two_mul_le_add habove
  have hright := h'.add_le_two_mul hbelow
  have horder := Magnitude.toRat_lt_toRat hlt
  linarith

theorem rank_le (h : IsNearest q m) (h' : IsNearest q' m') (hle : q ≤ q') :
    m.rank ≤ m'.rank := by
  by_contra hgt
  have hlt : m'.rank < m.rank := Nat.lt_of_not_le hgt
  have hleft := h.add_le_two_mul hlt
  have hright := h'.two_mul_le_add hlt
  have hq : q = q' := by linarith
  subst hq
  exact h'.not_rank_lt h hlt

theorem eq (h : IsNearest q m) (h' : IsNearest q m') : m = m' :=
  Magnitude.eq_of_rank_eq (Nat.le_antisymm (h.rank_le h' le_rfl) (h'.rank_le h le_rfl))

end IsNearest

/-! ### Below the least number -/

/-- The least number above zero. -/
def leastSubnormal : ℚ := 1 / 2 ^ 1074

theorem leastSubnormal_eq : leastSubnormal = 1 / unitsPerOne := by
  rw [leastSubnormal, cast_unitsPerOne]

/-- Half of the least number is still rounded to zero. -/
theorem isNearest_zero_iff {q : ℚ} (hq : 0 ≤ q) :
    IsNearest q .zero ↔ q ≤ leastSubnormal / 2 := by
  let least : Magnitude := ⟨1, by decide⟩
  have hzero : Magnitude.zero.toRat = 0 := by
    rw [Magnitude.toRat, Magnitude.units_zero, Nat.cast_zero, zero_div]
  have hleast : least.toRat = leastSubnormal := by
    rw [Magnitude.toRat, leastSubnormal_eq, show least.units = 1 by decide, Nat.cast_one]
  rw [← hleast]
  constructor
  · intro h
    have hmiddle : 2 * q ≤ Magnitude.zero.toRat + least.toRat := h.two_mul_le_add (by decide)
    linarith
  · intro h
    have hnearer : ∀ other : Magnitude, other ≠ .zero →
        |q - Magnitude.zero.toRat| ≤ |q - other.toRat| := by
      intro other hother
      have hrank : least.rank ≤ other.rank :=
        Nat.one_le_iff_ne_zero.mpr fun hrank => hother (Magnitude.eq_of_rank_eq hrank)
      have hle := Magnitude.toRat_le_toRat_iff.mpr hrank
      rw [hzero, sub_zero, abs_of_nonneg hq, abs_sub_comm]
      exact le_trans (by linarith) (le_abs_self _)
    refine ⟨fun other => ?_, fun _ _ _ => by decide⟩
    by_cases hother : other = .zero
    · rw [hother]
    · exact hnearer other hother

/-! ### Above the largest number -/

/-- Halfway between the largest finite number and the power of two that would follow. -/
def overflowBound : ℚ := 2 ^ 1024 - 2 ^ 970

theorem overflowBound_mul_unitsPerOne :
    overflowBound * unitsPerOne = (2 * binadeSize - 1 / 2) * 2 ^ 2045 := by
  have hhigh : (2 : ℚ) ^ 1024 = 2 ^ 54 * 2 ^ 970 := pow_add 2 54 970
  have htop : (2 : ℚ) ^ 2045 = 2 * (2 ^ 970 * 2 ^ 1074) := by
    rw [← pow_add, ← pow_succ']
  rw [overflowBound, cast_unitsPerOne, hhigh, htop, binadeSize]
  generalize (2 : ℚ) ^ 970 = half
  generalize (2 : ℚ) ^ 1074 = one
  push_cast
  ring

theorem leastSubnormal_lt_overflowBound : leastSubnormal < overflowBound := by
  have htop : (1 : ℚ) ≤ 2 ^ 2045 := one_le_pow₀ one_le_two
  rw [leastSubnormal_eq, div_lt_iff₀ unitsPerOne_pos, overflowBound_mul_unitsPerOne, binadeSize]
  generalize (2 : ℚ) ^ 2045 = top at htop
  push_cast
  linarith

/-- The sum of ranks leaves the range exactly where the quotient is rounded to twice the
    size of the last binade, which is even and so wins at the middle. -/
theorem rank_overflow_iff {num den e : Nat} (hden : 0 < den)
    (he : (num / den).log2 - 52 = e) (top : Nat) :
    (top + 2) * binadeSize ≤ binadeSize * e + nearestEven num (den * Nat.pow 2 e) ↔
      (2 * binadeSize - 1 / 2 : ℚ) * 2 ^ top ≤ num / den := by
  obtain ⟨hle, hnormal⟩ := nearestEven_place_bounds he
  have hbinade : (2 : ℚ) ≤ binadeSize := by
    unfold binadeSize
    norm_num
  have hplace : (0 : ℚ) < 2 ^ top := by positivity
  rcases Nat.lt_trichotomy e top with hlt | rfl | hgt
  · -- below the last binade
    have hrank : ¬ (top + 2) * binadeSize ≤
        binadeSize * e + nearestEven num (den * Nat.pow 2 e) := by
      unfold binadeSize at hle ⊢
      omega
    have hquotient : (num / den : ℚ) < (2 * binadeSize - 1 / 2) * 2 ^ top := by
      calc (num / den : ℚ) < 2 * binadeSize * 2 ^ e := quotient_lt_of_place hden he
        _ = binadeSize * 2 ^ (e + 1) := by ring
        _ ≤ binadeSize * 2 ^ top := by
            gcongr
            exact hlt
        _ ≤ (2 * binadeSize - 1 / 2) * 2 ^ top := by gcongr; linarith
    exact iff_of_false hrank hquotient.not_ge
  · -- within it the significand decides
    have hrank : (e + 2) * binadeSize ≤ binadeSize * e + nearestEven num (den * Nat.pow 2 e) ↔
        2 * binadeSize ≤ nearestEven num (den * Nat.pow 2 e) := by
      unfold binadeSize
      omega
    rw [hrank, two_mul_le_nearestEven_iff (place_pos hden e), ← le_div_iff₀ hplace, div_div]
    push_cast
    rfl
  · -- above it
    have hrank : (top + 2) * binadeSize ≤
        binadeSize * e + nearestEven num (den * Nat.pow 2 e) := by
      have hfull := hnormal.resolve_right (by omega)
      unfold binadeSize at hfull ⊢
      omega
    refine iff_of_true hrank ?_
    calc (2 * binadeSize - 1 / 2 : ℚ) * 2 ^ top ≤ 2 * binadeSize * 2 ^ top := by gcongr; linarith
      _ = binadeSize * 2 ^ (top + 1) := by ring
      _ ≤ binadeSize * 2 ^ e := by
          gcongr
          exact hgt
      _ ≤ num / den := le_quotient_of_place hden he (by omega)

theorem ofRatio?_eq_none_iff {num den : Nat} (hden : 0 < den) :
    Magnitude.ofRatio? num den = none ↔ overflowBound ≤ num / den / unitsPerOne := by
  rw [le_div_iff₀ unitsPerOne_pos, overflowBound_mul_unitsPerOne, ← rank_overflow_iff hden rfl]
  simp [Magnitude.ofRatio?]

theorem isNearest_of_ofRatio?_eq_some {num den : Nat} {m : Magnitude} (hden : 0 < den)
    (h : Magnitude.ofRatio? num den = some m) : IsNearest (num / den / unitsPerOne) m := by
  simp only [Magnitude.ofRatio?] at h
  split at h
  · cases h
    exact isNearest_of_rank_eq hden rfl rfl
  · cases h

/-! ### What a rational is rounded to -/

/-- A rational that is not negative, and the number it is rounded to. -/
inductive RoundsTo (q : ℚ) : Binary64 → Prop where
  | finite {m : Magnitude} (hq : q < overflowBound) (hm : IsNearest q m) :
      RoundsTo q (.finite false m)
  | infinite (hq : overflowBound ≤ q) : RoundsTo q (.infinite false)

theorem roundsTo_orInfinite_ofRatio? (num : Nat) {den : Nat} (hden : 0 < den) :
    RoundsTo (num / den / unitsPerOne) (.orInfinite false (Magnitude.ofRatio? num den)) := by
  cases h : Magnitude.ofRatio? num den with
  | some m =>
    refine .finite (lt_of_not_ge fun hq => ?_) (isNearest_of_ofRatio?_eq_some hden h)
    rw [(ofRatio?_eq_none_iff hden).mpr hq] at h
    cases h
  | none => exact .infinite ((ofRatio?_eq_none_iff hden).mp h)

/-- The exact value of a finite number. -/
def Binary64.toRat (x : Binary64) : ℚ := x.signedUnits / unitsPerOne

theorem Binary64.toRat_finite (negative : Bool) (m : Magnitude) :
    (Binary64.finite negative m).toRat = if negative then -m.toRat else m.toRat := by
  cases negative with
  | false =>
    show ((m.units : ℤ) : ℚ) / unitsPerOne = m.toRat
    rw [Int.cast_natCast, Magnitude.toRat]
  | true =>
    show ((-m.units : ℤ) : ℚ) / unitsPerOne = -m.toRat
    rw [Int.cast_neg, Int.cast_natCast, neg_div, Magnitude.toRat]

/-- The order of the numbers.  Nothing compares with what is not a number. -/
inductive Binary64.Le : Binary64 → Binary64 → Prop where
  | finite {negative negative' : Bool} {m m' : Magnitude}
      (h : (Binary64.finite negative m).signedUnits ≤ (Binary64.finite negative' m').signedUnits) :
      Le (.finite negative m) (.finite negative' m')
  | infinite {x : Binary64} (h : x ≠ .nan) : Le x (.infinite false)
  | negInfinite {x : Binary64} (h : x ≠ .nan) : Le (.infinite true) x

instance : LE Binary64 := ⟨Binary64.Le⟩

namespace RoundsTo

variable {q q' : ℚ} {x x' : Binary64}

theorem ne_nan (h : RoundsTo q x) : x ≠ .nan := by
  cases h <;> exact nofun

/-- A larger rational is not rounded to a smaller number. -/
theorem le_of_le (h : RoundsTo q x) (h' : RoundsTo q' x') (hle : q ≤ q') : x ≤ x' := by
  cases h' with
  | infinite hq' => exact .infinite h.ne_nan
  | finite hq' hm' =>
    cases h with
    | infinite hq => exact absurd (hq.trans hle) hq'.not_ge
    | finite hq hm =>
      refine .finite ?_
      exact Int.ofNat_le.mpr (Magnitude.units_le_units_iff.mpr (hm.rank_le hm' hle))

/-- There is one number to round to. -/
theorem eq (h : RoundsTo q x) (h' : RoundsTo q x') : x = x' := by
  cases h with
  | finite hq hm =>
    cases h' with
    | finite hq' hm' => rw [hm.eq hm']
    | infinite hq' => exact absurd hq' hq.not_ge
  | infinite hq =>
    cases h' with
    | finite hq' hm' => exact absurd hq hq'.not_ge
    | infinite hq' => rfl

/-- No finite number is nearer, of whatever sign. -/
theorem abs_sub_toRat_le (h : RoundsTo q x) (hq : 0 ≤ q) (hx : x.isFinite = true) {y : Binary64}
    (hy : y.isFinite = true) : |q - x.toRat| ≤ |q - y.toRat| := by
  cases h with
  | infinite _ => cases hx
  | @finite m _ hm =>
    cases y with
    | finite negative m' =>
      have hle : |q - m.toRat| ≤ |q - m'.toRat| := hm.le m'
      rw [Binary64.toRat_finite, Binary64.toRat_finite]
      cases negative with
      | false => exact hle
      | true =>
        have hm' := m'.toRat_nonneg
        refine hle.trans ?_
        simp only [if_true, sub_neg_eq_add]
        rw [abs_le, abs_of_nonneg (add_nonneg hq hm')]
        constructor <;> linarith
    | infinite _ => cases hy
    | nan => cases hy

theorem eq_infinite_iff (h : RoundsTo q x) : x = .infinite false ↔ overflowBound ≤ q := by
  constructor
  · rintro rfl
    cases h with
    | infinite hq => exact hq
  · intro hq
    exact h.eq (.infinite hq)

theorem eq_zero_iff (h : RoundsTo q x) (hq : 0 ≤ q) :
    x = .zero false ↔ q ≤ leastSubnormal / 2 := by
  constructor
  · rintro rfl
    cases h with
    | finite _ hm => exact (isNearest_zero_iff hq).mp hm
  · intro hsmall
    refine h.eq (.finite ?_ ((isNearest_zero_iff hq).mpr hsmall))
    have hbound := leastSubnormal_lt_overflowBound
    linarith

end RoundsTo

end DeskCalculator
