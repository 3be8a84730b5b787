import DeskCalculator.Proofs.NumberReading
import DeskCalculator.Proofs.ShortestDecimal

/-!
# Decimals around a magnitude

The decimals that are read as one magnitude lie together: what is between two of them is read
as that magnitude too, and one that is read so stays so when it moves towards the exact value
(`Decimal.magnitude?_of_towards`).

On one grid, therefore, any point that is read as the magnitude can be exchanged for a neighbour
of the exact value, which is no farther away.  The search misses no grid on which there is
something to find, and what it finds there is the nearest that there is
(`Magnitude.abs_sub_neighbour?_le`).
-/

namespace DeskCalculator

-- Nothing here computes the powers in these.
seal unitsPerOne Magnitude.tenths Decimal.magnitude?

/-! ### What is read as a magnitude -/

namespace Decimal

variable {a b d d' : Decimal} {m : Magnitude}

theorem magnitude?_eq_none_iff : d.magnitude? = none ↔ overflowBound ≤ d.toRat := by
  rw [magnitude?, ofRatio?_eq_none_iff d.denominator_pos, quotient_eq_toRat]

theorem isNearest_of_magnitude?_eq_some (h : d.magnitude? = some m) : IsNearest d.toRat m := by
  rw [magnitude?] at h
  rw [← quotient_eq_toRat]
  exact isNearest_of_ofRatio?_eq_some d.denominator_pos h

theorem exists_magnitude?_eq_some (h : d.toRat < overflowBound) :
    ∃ m, d.magnitude? = some m := by
  rw [← Option.ne_none_iff_exists']
  exact fun hnone => absurd (magnitude?_eq_none_iff.mp hnone) h.not_ge

theorem toRat_lt_of_magnitude?_eq_some (h : d.magnitude? = some m) : d.toRat < overflowBound := by
  refine lt_of_not_ge fun hover => ?_
  rw [magnitude?_eq_none_iff.mpr hover] at h
  cases h

theorem magnitude?_of_between (ha : a.magnitude? = some m) (hb : b.magnitude? = some m)
    (hle : a.toRat ≤ d.toRat) (hle' : d.toRat ≤ b.toRat) : d.magnitude? = some m := by
  have hless := hle'.trans_lt (toRat_lt_of_magnitude?_eq_some hb)
  obtain ⟨m', hd⟩ := exists_magnitude?_eq_some hless
  have hbetween := isNearest_of_magnitude?_eq_some hd
  have hrank : m'.rank = m.rank :=
    Nat.le_antisymm (hbetween.rank_le (isNearest_of_magnitude?_eq_some hb) hle')
      ((isNearest_of_magnitude?_eq_some ha).rank_le hbetween hle)
  rw [hd, Magnitude.eq_of_rank_eq hrank]

end Decimal

namespace Magnitude

variable {m : Magnitude}

/-! ### Steps -/

/-- The distance between two neighbours on a grid. -/
def gridStep (grid : ℕ) : ℚ := 10 ^ grid / 10 ^ 1074

theorem gridStep_pos (grid : ℕ) : 0 < gridStep grid :=
  div_pos (pow_pos (by norm_num) grid) (pow_pos (by norm_num) 1074)

theorem gridStep_add (grid more : ℕ) : gridStep (grid + more) = 10 ^ more * gridStep grid := by
  rw [gridStep, gridStep, pow_add, mul_comm (10 ^ grid : ℚ), mul_div_assoc]

theorem toRat_gridPoint (n grid : ℕ) : (gridPoint n grid).toRat = n * gridStep grid := by
  unfold gridPoint gridStep Decimal.toRat
  generalize 1074 = k
  have hpower : (10 : ℚ) ^ (grid - k) * 10 ^ k = 10 ^ (k - grid) * 10 ^ grid := by
    rw [← pow_add, ← pow_add]
    exact congrArg (10 ^ ·) (by omega)
  simp only [Nat.pow_eq, Nat.cast_mul, Nat.cast_pow, Nat.cast_ofNat]
  field_simp
  rw [mul_assoc, mul_assoc, hpower]

theorem ten_pow_eq (k : ℕ) : (10 : ℚ) ^ k = 5 ^ k * 2 ^ k := by
  rw [← mul_pow]
  norm_num

theorem toRat_eq_tenths (m : Magnitude) : m.toRat = m.tenths * gridStep 0 := by
  unfold toRat tenths gridStep unitsPerOne
  generalize 1074 = k
  simp only [Nat.pow_eq, Nat.cast_mul, Nat.cast_pow, Nat.cast_ofNat, pow_zero, ten_pow_eq]
  field_simp

theorem toRat_exact (m : Magnitude) : (gridPoint m.tenths 0).toRat = m.toRat := by
  rw [toRat_gridPoint, toRat_eq_tenths]

end Magnitude

/-- A decimal that is read as a magnitude may move towards its exact value. -/
theorem Decimal.magnitude?_of_towards {d d' : Decimal} {m : Magnitude}
    (h : d.magnitude? = some m)
    (hside : d.toRat ≤ d'.toRat ∧ d'.toRat ≤ m.toRat ∨ m.toRat ≤ d'.toRat ∧ d'.toRat ≤ d.toRat) :
    d'.magnitude? = some m ∧ |m.toRat - d'.toRat| ≤ |m.toRat - d.toRat| := by
  have hexact := m.hits_tenths
  have hvalue := m.toRat_exact
  rcases hside with ⟨hle, hle'⟩ | ⟨hle, hle'⟩
  · refine ⟨magnitude?_of_between h hexact hle (hle'.trans hvalue.ge), ?_⟩
    rw [abs_of_nonneg (sub_nonneg.mpr hle'), abs_of_nonneg (sub_nonneg.mpr (hle.trans hle'))]
    linarith
  · refine ⟨magnitude?_of_between hexact h (hvalue.le.trans hle) hle', ?_⟩
    rw [abs_of_nonpos (sub_nonpos.mpr hle), abs_of_nonpos (sub_nonpos.mpr (hle.trans hle'))]
    linarith

namespace Magnitude

variable {m : Magnitude} {n grid : ℕ}

theorem hits_of_towards {d : Decimal} (h : d.magnitude? = some m)
    (hside : d.toRat ≤ n * gridStep grid ∧ n * gridStep grid ≤ m.toRat ∨
      m.toRat ≤ n * gridStep grid ∧ n * gridStep grid ≤ d.toRat) :
    m.Hits n grid ∧ |m.toRat - n * gridStep grid| ≤ |m.toRat - d.toRat| := by
  rw [← toRat_gridPoint] at hside ⊢
  exact Decimal.magnitude?_of_towards h hside

/-! ### The neighbours of the exact value -/

theorem gridStep_eq (grid : ℕ) : gridStep grid = (Nat.pow 10 grid : ℕ) * gridStep 0 := by
  have hadd := gridStep_add 0 grid
  rw [Nat.zero_add] at hadd
  rw [hadd, Nat.pow_eq, Nat.cast_pow, Nat.cast_ofNat]

theorem toRat_eq_below_add_rest (m : Magnitude) (grid : ℕ) :
    m.toRat = (m.tenths / Nat.pow 10 grid : ℕ) * gridStep grid +
      (m.tenths % Nat.pow 10 grid : ℕ) * gridStep 0 := by
  rw [toRat_eq_tenths, gridStep_eq grid, ← mul_assoc, ← add_mul, ← Nat.cast_mul, ← Nat.cast_add,
    Nat.div_add_mod']

theorem abs_sub_below (m : Magnitude) (grid : ℕ) :
    |m.toRat - (m.tenths / Nat.pow 10 grid : ℕ) * gridStep grid|
      = (m.tenths % Nat.pow 10 grid : ℕ) * gridStep 0 := by
  have hstep := gridStep_pos 0
  rw [toRat_eq_below_add_rest m grid, add_sub_cancel_left]
  exact abs_of_nonneg (by positivity)

theorem abs_sub_above (m : Magnitude) (grid : ℕ) :
    |m.toRat - (m.tenths / Nat.pow 10 grid + 1 : ℕ) * gridStep grid|
      = (Nat.pow 10 grid - m.tenths % Nat.pow 10 grid : ℕ) * gridStep 0 := by
  have hless : m.tenths % Nat.pow 10 grid ≤ Nat.pow 10 grid :=
    (Nat.mod_lt _ (ten_pow_pos grid)).le
  have hstep := gridStep_pos 0
  have hdistance : m.toRat - (m.tenths / Nat.pow 10 grid + 1 : ℕ) * gridStep grid
      = -((Nat.pow 10 grid - m.tenths % Nat.pow 10 grid : ℕ) * gridStep 0) := by
    rw [toRat_eq_below_add_rest m grid, gridStep_eq grid, Nat.cast_sub hless]
    push_cast
    ring
  rw [hdistance, abs_neg]
  exact abs_of_nonneg (by positivity)

/-- A point of a grid that is read as the magnitude can be exchanged for a neighbour. -/
theorem Hits.exists_neighbour (h : m.Hits n grid) :
    ∃ n', m.IsNeighbour n' grid ∧ m.Hits n' grid ∧
      |m.toRat - n' * gridStep grid| ≤ |m.toRat - n * gridStep grid| := by
  have hstep := gridStep_pos grid
  have hfinest := gridStep_pos 0
  have hvalue := toRat_eq_below_add_rest m grid
  have hrest : m.tenths % Nat.pow 10 grid ≤ Nat.pow 10 grid :=
    (Nat.mod_lt _ (ten_pow_pos grid)).le
  rw [← toRat_gridPoint n]
  rcases Nat.lt_or_ge (m.tenths / Nat.pow 10 grid) n with habove | hbelow
  · refine ⟨m.tenths / Nat.pow 10 grid + 1, .inr rfl, hits_of_towards h (.inr ⟨?_, ?_⟩)⟩
    · have hle : ((m.tenths % Nat.pow 10 grid : ℕ) : ℚ) * gridStep 0 ≤ gridStep grid := by
        rw [gridStep_eq grid]
        gcongr
      rw [hvalue, Nat.cast_add, Nat.cast_one, add_mul, one_mul]
      linarith
    · rw [toRat_gridPoint]
      gcongr
      exact habove
  · refine ⟨m.tenths / Nat.pow 10 grid, .inl rfl, hits_of_towards h (.inl ⟨?_, ?_⟩)⟩
    · rw [toRat_gridPoint]
      gcongr
    · rw [hvalue]
      have hnonneg : (0 : ℚ) ≤ (m.tenths % Nat.pow 10 grid : ℕ) * gridStep 0 := by positivity
      linarith

/-! ### What is found on one grid -/

/-- Where there is something to find, something is found. -/
theorem neighbour?_ne_none (h : m.Hits n grid) : m.neighbour? grid ≠ none := by
  obtain ⟨n', hneighbour, hhits, -⟩ := h.exists_neighbour
  intro hnone
  exact not_hits_of_neighbour?_eq_none hnone hneighbour hhits

/-- Of two neighbours that are read as the magnitude the search takes the nearer. -/
theorem abs_sub_neighbour?_le_of_isNeighbour {decimal : Decimal}
    (hfound : m.neighbour? grid = some decimal) (hneighbour : m.IsNeighbour n grid)
    (h : m.Hits n grid) : |m.toRat - decimal.toRat| ≤ |m.toRat - n * gridStep grid| := by
  have hstep := gridStep_pos 0
  unfold neighbour? at hfound
  simp only at hfound
  split at hfound
  · split at hfound
    · next habove =>
      rw [← Option.some.inj hfound, toRat_gridPoint]
      rcases hneighbour with rfl | rfl
      · rw [abs_sub_above, abs_sub_below]
        gcongr
        omega
      · exact le_rfl
    · next habove =>
      rw [← Option.some.inj hfound, toRat_gridPoint]
      rcases hneighbour with rfl | rfl
      · exact le_rfl
      · have hnearer : ¬ Nat.pow 10 grid ≤ 2 * (m.tenths % Nat.pow 10 grid) := fun hle =>
          habove ⟨h, hle⟩
        rw [abs_sub_above, abs_sub_below]
        gcongr
        omega
  · next hbelow =>
    split at hfound
    · next habove =>
      rw [← Option.some.inj hfound, toRat_gridPoint]
      rcases hneighbour with rfl | rfl
      · exact absurd h hbelow
      · exact le_rfl
    · cases hfound

/-- No point of the grid that is read as the magnitude is nearer than the one that is found. -/
theorem abs_sub_neighbour?_le {decimal : Decimal} (hfound : m.neighbour? grid = some decimal)
    (h : m.Hits n grid) : |m.toRat - decimal.toRat| ≤ |m.toRat - n * gridStep grid| := by
  obtain ⟨n', hneighbour, hhits, hcloser⟩ := h.exists_neighbour
  exact (abs_sub_neighbour?_le_of_isNeighbour hfound hneighbour hhits).trans hcloser

end Magnitude

end DeskCalculator
