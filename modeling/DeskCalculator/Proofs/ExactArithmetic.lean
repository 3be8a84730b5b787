import DeskCalculator.Binary64.Arithmetic
import DeskCalculator.Proofs.NumberReading

/-!
# Where nothing is rounded away

A rational that is the exact value of a finite number (`Representable`) is rounded to
that number, and so the four operations and the reading of decimals are exact wherever their
exact result is representable.  Every operation forms one quotient of whole numbers and rounds
it once, so all of them come down to `Binary64.exactly_ofRatio`; what is left for each is that
its quotient is the exact result.

The whole numbers up to `2 ^ 53` in magnitude are representable
(`IsSmallInteger.representable`).
-/

namespace DeskCalculator

-- Nothing here computes the power in it.
seal unitsPerOne

/-- A finite number whose exact value is the rational; of the two zeros either will do. -/
def Binary64.Exactly (x : Binary64) (q : ℚ) : Prop := x.isFinite = true ∧ x.toRat = q

/-- The rational is the exact value of a finite number. -/
def Representable (q : ℚ) : Prop := ∃ x : Binary64, x.Exactly q

/-! ### Signs -/

/-- A rational with the sign that stands before it. -/
def withSign (negative : Bool) (q : ℚ) : ℚ := if negative then -q else q

theorem withSign_mul_withSign (s t : Bool) (p q : ℚ) :
    withSign s p * withSign t q = withSign (s ^^ t) (p * q) := by
  cases s <;> cases t <;> simp [withSign]

theorem withSign_div_withSign (s t : Bool) (p q : ℚ) :
    withSign s p / withSign t q = withSign (s ^^ t) (p / q) := by
  cases s <;> cases t <;> simp [withSign, neg_div, div_neg]

theorem abs_withSign (negative : Bool) (q : ℚ) : |withSign negative q| = |q| := by
  cases negative with
  | false => rfl
  | true => exact abs_neg q

theorem exactly_finite (negative : Bool) (m : Magnitude) :
    (Binary64.finite negative m).Exactly (withSign negative m.toRat) :=
  ⟨rfl, Binary64.toRat_finite negative m⟩

/-- A finite number is a sign and a magnitude. -/
theorem Binary64.Exactly.exists_finite {x : Binary64} {q : ℚ} (h : x.Exactly q) :
    ∃ negative m, x = .finite negative m ∧ q = withSign negative m.toRat := by
  cases x with
  | finite negative m => exact ⟨negative, m, rfl, h.2.symm.trans (toRat_finite negative m)⟩
  | infinite negative => cases h.1
  | nan => cases h.1

theorem Binary64.Exactly.neg {x : Binary64} {q : ℚ} (h : x.Exactly q) : (-x).Exactly (-q) := by
  constructor
  · rw [isFinite_neg, h.1]
  · rw [toRat, signedUnits_neg, Int.cast_neg, neg_div, ← toRat, h.2]

/-- The magnitude of a representable rational. -/
theorem Representable.exists_magnitude {q : ℚ} (h : Representable q) :
    ∃ m : Magnitude, m.toRat = |q| := by
  obtain ⟨x, hx⟩ := h
  obtain ⟨negative, m, -, rfl⟩ := hx.exists_finite
  refine ⟨m, ?_⟩
  rw [abs_withSign, abs_of_nonneg m.toRat_nonneg]

theorem Magnitude.representable_toRat (m : Magnitude) : Representable m.toRat :=
  ⟨.finite false m, exactly_finite false m⟩

theorem Representable.neg {q : ℚ} (h : Representable q) : Representable (-q) := by
  obtain ⟨x, hx⟩ := h
  exact ⟨-x, hx.neg⟩

/-! ### One rounding -/

/-- A quotient that is a magnitude is rounded to it. -/
theorem Magnitude.ofRatio?_of_eq_toRat {num den : Nat} {m : Magnitude} (hden : 0 < den)
    (h : (num / den / unitsPerOne : ℚ) = m.toRat) : ofRatio? num den = some m := by
  have hquotient : (num / den : ℚ) = m.units := (div_left_inj' unitsPerOne_pos.ne').mp h
  have hnum : num = m.units * den := by
    rw [div_eq_iff (by exact_mod_cast hden.ne')] at hquotient
    exact_mod_cast hquotient
  rw [hnum]
  exact m.ofRatio?_units_mul hden

namespace Binary64

theorem exactly_ofRatio (negative : Bool) {num den : Nat} (hden : 0 < den) {q : ℚ}
    (hquotient : (num / den / unitsPerOne : ℚ) = q) (hq : Representable (withSign negative q)) :
    (ofRatio negative num den).Exactly (withSign negative q) := by
  obtain ⟨m, hm⟩ := hq.exists_magnitude
  have hnonneg : 0 ≤ q := by
    rw [← hquotient]
    exact div_nonneg (by positivity) unitsPerOne_pos.le
  rw [abs_withSign, abs_of_nonneg hnonneg] at hm
  rw [ofRatio, Magnitude.ofRatio?_of_eq_toRat hden (hquotient.trans hm.symm), ← hm]
  exact exactly_finite negative m

theorem exactly_ofUnits (zeroNegative : Bool) {units : Int} {q : ℚ}
    (hunits : (units : ℚ) / unitsPerOne = q) (hq : Representable q) :
    (ofUnits zeroNegative units).Exactly q := by
  unfold ofUnits
  split
  · next hzero =>
    have hq0 : q = withSign zeroNegative Magnitude.zero.toRat := by
      rw [← hunits, hzero, Magnitude.toRat, Magnitude.units_zero]
      simp [withSign]
    rw [hq0]
    exact exactly_finite zeroNegative .zero
  · have hsign : withSign (decide (units < 0)) (units.natAbs / (1 : ℕ) / unitsPerOne) = q := by
      rw [← hunits, Nat.cast_one, div_one, Nat.cast_natAbs]
      rcases lt_or_ge units 0 with hneg | hnonneg
      · simp [withSign, hneg, abs_of_neg, neg_div]
      · simp [withSign, hnonneg.not_gt, abs_of_nonneg hnonneg]
    rw [← hsign] at hq ⊢
    exact exactly_ofRatio _ Nat.one_pos rfl hq

/-! ### The operations -/

namespace Exactly

variable {x y : Binary64} {p q : ℚ}

theorem add (hx : x.Exactly p) (hy : y.Exactly q) (h : Representable (p + q)) :
    (x + y).Exactly (p + q) := by
  obtain ⟨hfinite, rfl⟩ := hx
  obtain ⟨hfinite', rfl⟩ := hy
  cases x with
  | finite s m =>
    cases y with
    | finite t n =>
      refine exactly_ofUnits (s && t) ?_ h
      rw [Int.cast_add, add_div]
      rfl
    | infinite t => cases hfinite'
    | nan => cases hfinite'
  | infinite s => cases hfinite
  | nan => cases hfinite

theorem sub (hx : x.Exactly p) (hy : y.Exactly q) (h : Representable (p - q)) :
    (x - y).Exactly (p - q) := by
  rw [Rat.sub_eq_add_neg] at h ⊢
  exact hx.add hy.neg h

theorem mul (hx : x.Exactly p) (hy : y.Exactly q) (h : Representable (p * q)) :
    (x * y).Exactly (p * q) := by
  obtain ⟨s, m, rfl, rfl⟩ := hx.exists_finite
  obtain ⟨t, n, rfl, rfl⟩ := hy.exists_finite
  have hproduct : (finite s m * finite t n : Binary64)
      = ofRatio (s ^^ t) (m.units * n.units) unitsPerOne := by
    show Binary64.mul _ _ = _
    rw [Binary64.mul]
  rw [withSign_mul_withSign] at h ⊢
  rw [hproduct]
  refine exactly_ofRatio (s ^^ t) (Nat.cast_pos.mp unitsPerOne_pos) ?_ h
  have hone := unitsPerOne_pos.ne'
  rw [Magnitude.toRat, Magnitude.toRat, Nat.cast_mul]
  field_simp

theorem div (hx : x.Exactly p) (hy : y.Exactly q) (hq : q ≠ 0) (h : Representable (p / q)) :
    (x / y).Exactly (p / q) := by
  obtain ⟨s, m, rfl, rfl⟩ := hx.exists_finite
  obtain ⟨t, n, rfl, rfl⟩ := hy.exists_finite
  have hn : n ≠ .zero := by
    rintro rfl
    simp [withSign, Magnitude.toRat, Magnitude.units_zero] at hq
  have hunits : n.units ≠ 0 := fun hzero => hn (Magnitude.units_eq_zero_iff.mp hzero)
  have hquotient : (finite s m / finite t n : Binary64)
      = ofRatio (s ^^ t) (m.units * unitsPerOne) n.units := if_neg hn
  rw [withSign_div_withSign] at h ⊢
  rw [hquotient]
  refine exactly_ofRatio (s ^^ t) (Nat.pos_of_ne_zero hunits) ?_ h
  have hone := unitsPerOne_pos.ne'
  rw [Magnitude.toRat, Magnitude.toRat, Nat.cast_mul]
  field_simp

end Exactly

end Binary64

/-- A decimal is read exactly. -/
theorem Decimal.exactly_value {d : Decimal} (h : Representable d.toRat) :
    d.value.Exactly d.toRat :=
  Binary64.exactly_ofRatio false d.denominator_pos d.quotient_eq_toRat h

/-! ### Whole numbers -/

/-- A multiple of the last place that its size gives it is a magnitude. -/
theorem Magnitude.exists_units_eq {units e : Nat} (he : units.log2 - 52 = e) (hmax : e ≤ 2045)
    (hplace : Nat.pow 2 e ∣ units) : ∃ m : Magnitude, m.units = units := by
  have hpos : 0 < Nat.pow 2 e := Nat.two_pow_pos e
  obtain ⟨hbelow, hnormal⟩ := bounds_of_log2_sub he
  have hless : units / Nat.pow 2 e < 2 * binadeSize := (Nat.div_lt_iff_lt_mul hpos).mpr hbelow
  have hleading : binadeSize ≤ units / Nat.pow 2 e ∨ e = 0 :=
    hnormal.imp_left (Nat.le_div_iff_mul_le hpos).mpr
  have hrank : binadeSize * e + units / Nat.pow 2 e < 2047 * binadeSize := by
    unfold binadeSize at hless ⊢
    omega
  refine ⟨⟨_, hrank⟩, ?_⟩
  rw [units_of_rank_eq rfl hless.le hleading, Nat.div_mul_cancel hplace]

/-- A whole number that 53 bits are enough for, or the power of two that follows. -/
def IsSmallInteger (q : ℚ) : Prop := ∃ n : ℤ, |n| ≤ 2 ^ 53 ∧ (n : ℚ) = q

/-- With so many zeros behind it, a number of at most 53 bits is a multiple of its last place. -/
theorem Magnitude.exists_units_eq_mul {n k : Nat} (hn : n ≤ 2 ^ 53) (hk : k < 2045) :
    ∃ m : Magnitude, m.units = n * Nat.pow 2 k := by
  rcases Nat.eq_zero_or_pos n with rfl | hpos
  · exact ⟨zero, by rw [units_zero, Nat.zero_mul]⟩
  have hne : n * Nat.pow 2 k ≠ 0 := (Nat.mul_pos hpos (Nat.two_pow_pos k)).ne'
  rcases Nat.lt_or_eq_of_le hn with hlt | rfl
  · have hlog : (n * Nat.pow 2 k).log2 < 53 + k := by
      rw [Nat.log2_lt hne, Nat.pow_add]
      exact Nat.mul_lt_mul_of_pos_right hlt (Nat.two_pow_pos k)
    refine exists_units_eq rfl (by omega) (Dvd.dvd.mul_left ?_ n)
    exact Nat.pow_dvd_pow 2 (by omega)
  · have hpower : 2 ^ 53 * Nat.pow 2 k = 2 ^ (53 + k) := (Nat.pow_add 2 53 k).symm
    refine exists_units_eq rfl ?_ ?_
    · rw [hpower, Nat.log2_two_pow]
      omega
    · rw [hpower, Nat.log2_two_pow]
      exact Nat.pow_dvd_pow 2 (by omega)

theorem representable_natCast {n : Nat} (hn : n ≤ 2 ^ 53) : Representable n := by
  have hunits : ∃ m : Magnitude, m.units = n * unitsPerOne := by
    have hk : 1074 < 2045 := by decide
    unfold unitsPerOne
    generalize 1074 = k at hk ⊢
    exact Magnitude.exists_units_eq_mul hn hk
  obtain ⟨m, hm⟩ := hunits
  have hvalue : m.toRat = n := by
    rw [Magnitude.toRat, hm, Nat.cast_mul, mul_div_cancel_right₀ _ unitsPerOne_pos.ne']
  rw [← hvalue]
  exact m.representable_toRat

theorem IsSmallInteger.representable {q : ℚ} (h : IsSmallInteger q) : Representable q := by
  obtain ⟨n, hn, rfl⟩ := h
  rw [Int.abs_eq_natAbs] at hn
  have hnat : Representable n.natAbs := representable_natCast (by omega)
  rcases Int.natAbs_eq n with heq | heq
  · rw [heq]
    exact hnat
  · rw [heq, Int.cast_neg]
    exact hnat.neg

end DeskCalculator
