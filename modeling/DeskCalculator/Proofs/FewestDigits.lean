import DeskCalculator.Proofs.DecimalGrids

/-!
# The fewest digits

Among the decimals that are read as a magnitude, the one that the search finds has the fewest
digits (`Magnitude.fitsDigits_shortest`), and of those with so few it is the nearest
(`Magnitude.abs_sub_shortest_le`).

A decimal with a given number of digits that is near the value lies on a grid that the number
of digits and the size of the value determine.  If it is so far off that it has another size, the
power of ten between the two is nearer, and lies on that grid as well
(`Magnitude.exists_hits_of_fitsDigits`).  So fewer digits are a coarser grid, and the search
goes from coarse to fine.

One digit can be had on two grids, because a power of ten above the value is one digit on a
grid that is coarser than that of the other numbers of one digit.  The search takes the power
without a look at the others.  They are never nearer: they could be only where the last place of
the magnitude is longer than a step of theirs, which leaves the least magnitude of all, and
there the power is not read as the magnitude (`Magnitude.nineteen_mul_le_of_hits`).
-/

namespace DeskCalculator

-- Nothing here computes the powers in these.
seal unitsPerOne Magnitude.tenths Decimal.magnitude? Magnitude.gridStep

/-! ### Counting digits -/

/-- So many digits, with zeros behind them, make up the number. -/
def FitsDigits (count n : ℕ) : Prop := ∃ digits zeros, n = digits * 10 ^ zeros ∧ digits < 10 ^ count

theorem FitsDigits.mono {count count' n : ℕ} (h : FitsDigits count n) (hle : count ≤ count') :
    FitsDigits count' n := by
  obtain ⟨digits, zeros, hn, hdigits⟩ := h
  exact ⟨digits, zeros, hn, hdigits.trans_le (Nat.pow_le_pow_right (by decide) hle)⟩

theorem FitsDigits.mul_pow {count n : ℕ} (h : FitsDigits count n) (more : ℕ) :
    FitsDigits count (n * 10 ^ more) := by
  obtain ⟨digits, zeros, rfl, hdigits⟩ := h
  exact ⟨digits, zeros + more, by rw [pow_add, mul_assoc], hdigits⟩

/-- The power of ten behind all numbers of so many digits needs only one. -/
theorem fitsDigits_of_le_pow {count n : ℕ} (h : n ≤ 10 ^ count) : FitsDigits (max 1 count) n := by
  rcases Nat.lt_or_eq_of_le h with hlt | rfl
  · have hfits : FitsDigits count n := ⟨n, 0, by rw [pow_zero, mul_one], hlt⟩
    exact hfits.mono (Nat.le_max_right 1 count)
  · have hone : FitsDigits 1 (10 ^ count) := ⟨1, count, (one_mul _).symm, by decide⟩
    exact hone.mono (Nat.le_max_left 1 count)

/-- A number that ends in no zero needs all its digits. -/
theorem FitsDigits.lt_pow_of_mod_ten {count n more : ℕ} (h : FitsDigits count (n * 10 ^ more))
    (hn : n % 10 ≠ 0) : n < 10 ^ count := by
  obtain ⟨digits, zeros, heq, hdigits⟩ := h
  have hten : ∀ k, 0 < 10 ^ k := fun k => Nat.pow_pos (by decide)
  rcases Nat.lt_or_ge more zeros with hlt | hge
  · obtain ⟨extra, rfl⟩ := Nat.exists_eq_add_of_lt hlt
    have hmultiple : n = digits * 10 ^ extra * 10 := by
      apply Nat.eq_of_mul_eq_mul_right (hten more)
      rw [heq]
      ring
    rw [hmultiple, Nat.mul_mod_left] at hn
    exact absurd rfl hn
  · obtain ⟨extra, rfl⟩ := Nat.exists_eq_add_of_le hge
    have hdigits' : n * 10 ^ extra = digits := by
      apply Nat.eq_of_mul_eq_mul_right (hten zeros)
      rw [← heq]
      ring
    exact (Nat.le_mul_of_pos_right n (hten extra)).trans_lt (hdigits' ▸ hdigits)

/-- Larger than what its digits reach on finer grids, a decimal lies on the grid. -/
theorem exists_mul_gridStep {d : Decimal} {count grid : ℕ} (hd : FitsDigits count d.coefficient)
    (hlarge : Magnitude.gridStep (grid + count) < 10 * d.toRat) :
    ∃ n : ℕ, d.toRat = n * Magnitude.gridStep grid := by
  obtain ⟨digits, zeros, hcoefficient, hdigits⟩ := hd
  unfold Magnitude.gridStep Decimal.toRat at hlarge ⊢
  rw [hcoefficient] at hlarge ⊢
  generalize 1074 = k at hlarge ⊢
  have hplaces : grid + d.places ≤ zeros + k := by
    rw [mul_div_assoc', div_lt_div_iff₀ (by positivity) (by positivity)] at hlarge
    have hnat : 10 ^ (grid + count) * 10 ^ d.places < 10 * (digits * 10 ^ zeros) * 10 ^ k := by
      exact_mod_cast hlarge
    have hpower : 10 ^ (grid + count + d.places) < 10 ^ (1 + count + zeros + k) :=
      calc 10 ^ (grid + count + d.places) = 10 ^ (grid + count) * 10 ^ d.places := pow_add ..
        _ < 10 * (digits * 10 ^ zeros) * 10 ^ k := hnat
        _ ≤ 10 * (10 ^ count * 10 ^ zeros) * 10 ^ k := by gcongr
        _ = 10 ^ (1 + count + zeros + k) := by ring
    have hexponent := (Nat.pow_lt_pow_iff_right (by decide)).mp hpower
    omega
  obtain ⟨more, hmore⟩ := Nat.exists_eq_add_of_le hplaces
  refine ⟨digits * 10 ^ more, ?_⟩
  have hpower : (10 : ℚ) ^ zeros * 10 ^ k = 10 ^ grid * 10 ^ d.places * 10 ^ more := by
    rw [← pow_add, hmore, pow_add, pow_add]
  push_cast
  field_simp
  rw [mul_assoc, hpower]
  ring

/-! ### Half a last place -/

/-- The next magnitude is one last place above. -/
theorem Magnitude.units_of_rank_eq_succ {m above : Magnitude} (h : above.rank = m.rank + 1) :
    above.units = (m.significand + 1) * Nat.pow 2 m.exponent := by
  have hrank : above.rank = binadeSize * m.exponent + (m.significand + 1) := by
    rw [h, m.rank_eq, Nat.add_assoc]
  refine units_of_rank_eq hrank m.significand_lt ?_
  exact m.le_significand_or_exponent_eq_zero.imp_left Nat.le_succ_of_le

/-- What is read as a magnitude does not exceed it by more than half its last place. -/
theorem IsNearest.two_mul_le {q : ℚ} {m : Magnitude} (h : IsNearest q m) (hq : q < overflowBound) :
    2 * (q * unitsPerOne) ≤ (2 * m.significand + 1) * 2 ^ m.exponent := by
  have hone := unitsPerOne_pos
  by_cases hlast : m.rank + 1 < 2047 * binadeSize
  · let above : Magnitude := ⟨m.rank + 1, hlast⟩
    have hmiddle : 2 * q ≤ m.toRat + above.toRat := h.two_mul_le_add (Nat.lt_succ_self m.rank)
    have habove : above.units = (m.significand + 1) * Nat.pow 2 m.exponent :=
      Magnitude.units_of_rank_eq_succ rfl
    rw [Magnitude.toRat, Magnitude.toRat, habove, ← add_div, le_div_iff₀ hone,
      Magnitude.units] at hmiddle
    push_cast at hmiddle
    linarith
  · -- behind the last magnitude the bound of the range takes the place of the middle
    have hrank := m.rank_lt
    have hexponent : m.exponent = 2045 := by
      unfold Magnitude.exponent binadeSize at *
      omega
    have hsignificand : m.significand + 1 = 2 * binadeSize := by
      have := m.rank_eq
      rw [hexponent] at this
      unfold binadeSize at *
      omega
    have hsignificand' : (m.significand : ℚ) = 2 * binadeSize - 1 := by
      rw [eq_sub_iff_add_eq]
      exact_mod_cast hsignificand
    have hover := mul_lt_mul_of_pos_right hq hone
    rw [overflowBound_mul_unitsPerOne] at hover
    rw [hexponent, hsignificand']
    generalize (2 : ℚ) ^ 2045 = top at hover ⊢
    linarith

namespace Magnitude

variable {m : Magnitude} {n grid count : ℕ} {d : Decimal}

/-- The same bound in multiples of `10 ^ -1074`. -/
theorem Hits.two_mul_le (h : m.Hits n grid) :
    2 * (n * 10 ^ grid) ≤ (2 * m.significand + 1) * (2 ^ m.exponent * 5 ^ 1074) := by
  have hbound := (Decimal.isNearest_of_magnitude?_eq_some h).two_mul_le
    (Decimal.toRat_lt_of_magnitude?_eq_some h)
  rw [toRat_gridPoint, cast_unitsPerOne] at hbound
  unfold gridStep at hbound
  generalize 1074 = k at hbound ⊢
  have hscale : (n * (10 ^ grid / 10 ^ k) * 2 ^ k : ℚ) = n * 10 ^ grid / 5 ^ k := by
    rw [ten_pow_eq k]
    field_simp
  rw [hscale, mul_div_assoc', div_le_iff₀ (by positivity), mul_assoc _ _ (5 ^ k : ℚ)] at hbound
  exact_mod_cast hbound

/-! ### The first grid -/

/-- The search starts on the grid whose step is longer than the value. -/
def firstGrid (m : Magnitude) : ℕ := (Nat.toDigits 10 m.tenths).length

theorem tenths_lt_pow (m : Magnitude) : m.tenths < 10 ^ m.firstGrid := m.tenths_lt_start

theorem tenths_ne_zero (hm : m ≠ zero) : m.tenths ≠ 0 := by
  unfold tenths
  generalize 1074 = k
  have hfive : Nat.pow 5 k ≠ 0 := (Nat.pow_pos (by decide)).ne'
  exact Nat.mul_ne_zero (fun hunits => hm (units_eq_zero_iff.mp hunits)) hfive

theorem exists_firstGrid_eq (hm : m ≠ zero) :
    ∃ size, m.firstGrid = size + 1 ∧ 10 ^ size ≤ m.tenths := by
  have hpos : 0 < m.firstGrid := Nat.length_toDigits_pos
  obtain ⟨size, hsize⟩ := Nat.exists_eq_succ_of_ne_zero hpos.ne'
  refine ⟨size, hsize, ?_⟩
  by_contra hless
  rcases Nat.eq_zero_or_pos size with rfl | hsizePos
  · have := tenths_ne_zero hm
    omega
  · have hlength := (Nat.length_toDigits_le_iff (by decide) hsizePos).mpr (Nat.lt_of_not_le hless)
    rw [← firstGrid, hsize] at hlength
    omega

theorem toRat_lt_gridStep (m : Magnitude) : m.toRat < gridStep m.firstGrid := by
  have hstep := gridStep_pos 0
  rw [toRat_eq_tenths, gridStep_eq m.firstGrid]
  gcongr
  exact m.tenths_lt_pow

theorem gridStep_le_toRat {size : ℕ} (h : 10 ^ size ≤ m.tenths) : gridStep size ≤ m.toRat := by
  have hstep := gridStep_pos 0
  rw [toRat_eq_tenths, gridStep_eq size]
  gcongr
  exact h

/-! ### Fewer digits are a coarser grid -/

/-- Only zero can do without a digit. -/
theorem pos_of_fitsDigits (hm : m ≠ zero) (h : d.magnitude? = some m)
    (hd : FitsDigits count d.coefficient) : 0 < count := by
  refine Nat.pos_of_ne_zero ?_
  rintro rfl
  obtain ⟨digits, zeros, hcoefficient, hdigits⟩ := hd
  have hzero : d.coefficient = 0 := by
    rw [hcoefficient, Nat.lt_one_iff.mp hdigits, Nat.zero_mul]
  obtain ⟨coefficient, places⟩ := d
  obtain rfl : coefficient = 0 := hzero
  rw [magnitude?_zero] at h
  exact hm (Option.some.inj h).symm

/-- On a grid that has as many steps to the first as the decimal has digits lies the decimal
    itself, or a power of ten between it and the value. -/
theorem exists_hits_of_firstGrid_eq (hm : m ≠ zero) (h : d.magnitude? = some m)
    (hd : FitsDigits count d.coefficient) (hgrid : m.firstGrid = grid + count) :
    ∃ n, m.Hits n grid ∧ |m.toRat - n * gridStep grid| ≤ |m.toRat - d.toRat| := by
  have hcount := pos_of_fitsDigits hm h hd
  have habove := m.toRat_lt_gridStep
  obtain ⟨size, hsize, hpow⟩ := exists_firstGrid_eq hm
  have hbelow := gridStep_le_toRat hpow
  have hfirst : gridStep m.firstGrid = (10 ^ count : ℕ) * gridStep grid := by
    rw [hgrid, gridStep_add, Nat.cast_pow, Nat.cast_ofNat]
  have hlast : gridStep size = (10 ^ (count - 1) : ℕ) * gridStep grid := by
    have : size = grid + (count - 1) := by omega
    rw [this, gridStep_add, Nat.cast_pow, Nat.cast_ofNat]
  rcases le_or_gt (gridStep m.firstGrid) d.toRat with hlarge | hless
  · exact ⟨10 ^ count, hits_of_towards h (.inr ⟨hfirst ▸ habove.le, hfirst ▸ hlarge⟩)⟩
  rcases le_or_gt d.toRat (gridStep size) with hsmall | hgreater
  · exact ⟨10 ^ (count - 1), hits_of_towards h (.inl ⟨hlast ▸ hsmall, hlast ▸ hbelow⟩)⟩
  · have hlarge : gridStep (grid + count) < 10 * d.toRat := by
      rw [← hgrid, hsize, gridStep_add, pow_one]
      linarith
    obtain ⟨n, hn⟩ := exists_mul_gridStep hd hlarge
    refine ⟨n, hits_of_towards h ?_⟩
    rw [← hn]
    rcases le_total m.toRat d.toRat with hle | hle
    · exact .inr ⟨hle, le_rfl⟩
    · exact .inl ⟨le_rfl, hle⟩

/-- A decimal that is read as the magnitude can be exchanged for a point of the grid that goes
    with its number of digits. -/
theorem exists_hits_of_fitsDigits (hm : m ≠ zero) (h : d.magnitude? = some m)
    (hd : FitsDigits count d.coefficient) :
    ∃ n, m.Hits n (m.firstGrid - count) ∧
      |m.toRat - n * gridStep (m.firstGrid - count)| ≤ |m.toRat - d.toRat| := by
  rcases Nat.le_total m.firstGrid count with hfine | hcoarse
  · -- on the finest grid lies the exact value
    rw [Nat.sub_eq_zero_of_le hfine]
    refine ⟨m.tenths, m.hits_tenths, ?_⟩
    rw [← toRat_eq_tenths, sub_self, abs_zero]
    exact abs_nonneg _
  · exact exists_hits_of_firstGrid_eq hm h hd (Nat.sub_add_cancel hcoarse).symm

/-! ### One digit on two grids -/

/-- Where the least magnitude lies among the powers of ten: between `19 / 4` and `20 / 3` of one. -/
theorem five_pow_bounds :
    (10 ^ 750 < 5 ^ 1074 ∧ 5 ^ 1074 < 10 ^ (750 + 1)) ∧
      19 * 10 ^ 750 < 4 * 5 ^ 1074 ∧ 3 * 5 ^ 1074 < 20 * 10 ^ 750 := by
  decide +kernel

/-- If one unit is so large, no power of ten follows closely enough on few units. -/
theorem nineteen_mul_le {unit power size units : ℕ}
    (hunit : 10 ^ power < unit ∧ unit < 10 ^ (power + 1))
    (hbounds : 19 * 10 ^ power < 4 * unit ∧ 3 * unit < 20 * 10 ^ power)
    (hpow : 10 ^ size ≤ units * unit) (hless : units * unit < 10 ^ (size + 1))
    (hhalf : 2 * 10 ^ (size + 1) ≤ (2 * units + 1) * unit) :
    19 * 10 ^ size ≤ 2 * (units * unit) := by
  by_contra hcloser
  have hexpand : (2 * units + 1) * unit = 2 * (units * unit) + unit := by ring
  have hnext : 10 ^ (size + 1) = 10 * 10 ^ size := pow_succ' 10 size
  have hunits : 1 ≤ units := by
    refine Nat.pos_of_ne_zero ?_
    rintro rfl
    have hpos : 0 < 10 ^ size := Nat.pow_pos (by decide)
    omega
  have hle : unit ≤ units * unit := Nat.le_mul_of_pos_left unit hunits
  have hsize : size = power := by
    have hlt : size < power + 1 := by
      rw [← Nat.pow_lt_pow_iff_right (a := 10) (by decide)]
      omega
    have hgt : power < size + 1 := by
      rw [← Nat.pow_lt_pow_iff_right (a := 10) (by decide)]
      omega
    omega
  subst hsize
  have hone : units = 1 := by
    have htwo : units * unit < 2 * unit := by omega
    have := Nat.lt_of_mul_lt_mul_right htwo
    omega
  rw [hone, one_mul] at hcloser hexpand
  rw [hone] at hhalf
  omega

/-- If the power of ten above the value is read as the magnitude, it is at least as near as
    nine tenths of it. -/
theorem nineteen_mul_le_of_hits {size : ℕ} (hpow : 10 ^ size ≤ m.tenths)
    (hless : m.tenths < 10 ^ (size + 1)) (h : m.Hits 1 (size + 1)) :
    19 * 10 ^ size ≤ 2 * m.tenths := by
  have hhalf := h.two_mul_le
  have htenths : m.tenths = m.significand * (2 ^ m.exponent * 5 ^ 1074) := by
    unfold tenths units
    generalize 1074 = k
    rw [Nat.pow_eq, Nat.pow_eq, mul_assoc]
  obtain ⟨hunit, hbounds⟩ := five_pow_bounds
  generalize 5 ^ 1074 = least at *
  generalize 750 = power at *
  rw [htenths] at hpow hless ⊢
  rw [one_mul] at hhalf
  rcases Nat.lt_or_ge m.significand binadeSize with hfew | hmany
  · have hexponent : m.exponent = 0 :=
      m.le_significand_or_exponent_eq_zero.resolve_left (Nat.not_le_of_lt hfew)
    rw [hexponent, pow_zero, one_mul] at hpow hless hhalf ⊢
    exact nineteen_mul_le hunit hbounds hpow hless hhalf
  · -- so many last places make up the value that half of one hardly matters
    have hnext : 10 ^ (size + 1) = 10 * 10 ^ size := pow_succ' 10 size
    have hplaces : 10 * (2 ^ m.exponent * least) ≤ m.significand * (2 ^ m.exponent * least) := by
      unfold binadeSize at hmany
      exact Nat.mul_le_mul_right _ (by omega)
    rw [Nat.add_mul, mul_assoc] at hhalf
    omega

/-! ### The shortest decimal -/

/-- A point of a grid on which the search ends. -/
structure Found (m : Magnitude) (n grid : ℕ) : Prop where
  grid_le : grid ≤ m.firstGrid
  neighbour?_eq : m.neighbour? grid = some (gridPoint n grid)
  hits : m.Hits n grid
  le_pow : n ≤ 10 ^ (m.firstGrid - grid)
  coarser : ∀ coarser, grid < coarser → coarser ≤ m.firstGrid → m.neighbour? coarser = none

theorem exists_found (hm : m ≠ zero) : ∃ n grid, m.Found n grid ∧ m.shortest = gridPoint n grid := by
  have hshortest : m.shortest = m.shortestFrom m.firstGrid := if_neg hm
  obtain ⟨grid, hgrid, hfound, hcoarser⟩ := m.shortestFrom_found m.firstGrid
  obtain ⟨n, hneighbour, hhits, hpoint⟩ := neighbour?_eq_some hfound
  refine ⟨n, grid, ⟨hgrid, hpoint ▸ hfound, hhits, ?_, hcoarser⟩, hshortest.trans hpoint⟩
  have hbelow : m.tenths / Nat.pow 10 grid < 10 ^ (m.firstGrid - grid) := by
    rw [Nat.div_lt_iff_lt_mul (ten_pow_pos grid), Nat.pow_eq, ← pow_add, Nat.sub_add_cancel hgrid]
    exact m.tenths_lt_pow
  rcases hneighbour with rfl | rfl
  · exact hbelow.le
  · exact hbelow

namespace Found

/-- The coarser the grid, the fewer digits. -/
theorem fitsDigits (h : m.Found n grid) :
    FitsDigits (max 1 (m.firstGrid - grid)) (gridPoint n grid).coefficient :=
  (fitsDigits_of_le_pow h.le_pow).mul_pow (grid - 1074)

theorem firstGrid_sub_le (h : m.Found n grid) (hm : m ≠ zero) (hd : d.magnitude? = some m)
    (hdigits : FitsDigits count d.coefficient) : m.firstGrid - grid ≤ count := by
  obtain ⟨n', hhits, -⟩ := exists_hits_of_fitsDigits hm hd hdigits
  by_contra hmore
  exact neighbour?_ne_none hhits (h.coarser _ (by omega) (Nat.sub_le _ _))

end Found

/-- No decimal that is read as the magnitude has fewer digits than the shortest. -/
theorem fitsDigits_shortest (hm : m ≠ zero) (hd : d.magnitude? = some m)
    (hdigits : FitsDigits count d.coefficient) : FitsDigits count m.shortest.coefficient := by
  obtain ⟨n, grid, hfound, hshortest⟩ := exists_found hm
  rw [hshortest]
  refine hfound.fitsDigits.mono ?_
  exact Nat.max_le.mpr ⟨pos_of_fitsDigits hm hd hdigits, hfound.firstGrid_sub_le hm hd hdigits⟩

/-- Where the power of ten above the value is found, no decimal of one digit is nearer. -/
theorem abs_sub_firstGrid_le {size : ℕ} (hsize : m.firstGrid = size + 1)
    (hpow : 10 ^ size ≤ m.tenths) (h : m.Hits 1 (size + 1)) (n : ℕ) :
    |m.toRat - gridStep (size + 1)| ≤ |m.toRat - n * gridStep size| := by
  have hless := m.toRat_lt_gridStep
  have hstep := gridStep_pos size
  have hten : gridStep (size + 1) = 10 * gridStep size := by rw [gridStep_add, pow_one]
  have hnine : 19 * gridStep size ≤ 2 * m.toRat := by
    have hnat := nineteen_mul_le_of_hits hpow (hsize ▸ m.tenths_lt_pow) h
    rw [toRat_eq_tenths, gridStep_eq size, Nat.pow_eq, ← mul_assoc, ← mul_assoc]
    exact mul_le_mul_of_nonneg_right (by exact_mod_cast hnat) (gridStep_pos 0).le
  rw [hsize, hten] at hless
  rw [hten, abs_of_nonpos (by linarith)]
  rcases Nat.lt_or_ge n 10 with hfew | hmany
  · have hn : (n : ℚ) * gridStep size ≤ 9 * gridStep size := by
      gcongr
      exact_mod_cast Nat.le_of_lt_succ hfew
    rw [abs_of_nonneg (by linarith)]
    linarith
  · have hn : (10 : ℚ) * gridStep size ≤ n * gridStep size := by
      gcongr
      exact_mod_cast hmany
    rw [abs_of_nonpos (by linarith)]
    linarith

/-- Of the decimals that are read as the magnitude and have as few digits as the shortest, none
    is nearer. -/
theorem abs_sub_shortest_le (hm : m ≠ zero) (hd : d.magnitude? = some m)
    (hdigits : FitsDigits count d.coefficient)
    (hfew : ∀ fewer, FitsDigits fewer m.shortest.coefficient → count ≤ fewer) :
    |m.toRat - m.shortest.toRat| ≤ |m.toRat - d.toRat| := by
  obtain ⟨n, grid, hfound, hshortest⟩ := exists_found hm
  rw [hshortest] at hfew ⊢
  obtain ⟨n', hhits, hcloser⟩ := exists_hits_of_fitsDigits hm hd hdigits
  have hgrid := hfound.grid_le
  have hcount := hfew _ hfound.fitsDigits
  have hcount' := hfound.firstGrid_sub_le hm hd hdigits
  refine le_trans ?_ hcloser
  rcases Nat.lt_or_eq_of_le hgrid with hlt | heq
  · -- the point that was found lies on the grid of all decimals with so many digits
    have hsame : m.firstGrid - count = grid := by omega
    rw [hsame] at hhits ⊢
    exact abs_sub_neighbour?_le hfound.neighbour?_eq hhits
  · -- the point that was found is the power of ten above the value
    obtain ⟨size, hsize, hpow⟩ := exists_firstGrid_eq hm
    have hone : n = 1 := by
      have hle := hfound.le_pow
      rw [heq, Nat.sub_self, pow_zero] at hle
      have hne : n ≠ 0 := by
        rintro rfl
        exact hm (eq_zero_of_hits_zero hfound.hits)
      omega
    have hnear : m.firstGrid - count = size := by
      have := pos_of_fitsDigits hm hd hdigits
      omega
    have hfirst := hfound.hits
    rw [heq, hsize, hone] at hfirst
    rw [toRat_gridPoint, hnear, heq, hsize, hone, Nat.cast_one, one_mul]
    exact abs_sub_firstGrid_le hsize hpow hfirst n'

end Magnitude

end DeskCalculator
