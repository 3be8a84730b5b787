import DeskCalculator.Decimal.Shortest
import DeskCalculator.Proofs.ExactRounding

/-!
# What the search for the shortest decimal finds

The search returns a grid point beside the magnitude that is read as the magnitude, and
no neighbour on a coarser grid is (`Magnitude.shortestFrom_spec`).  The finest grid
holds the exact value, so there is always something to find.

A grid point whose number ends in a zero lies on the next coarser grid too, where it
is a neighbour again.  The search would have met it there, so a decimal with places has
no zero at its end (`Magnitude.coefficient_shortest_mod_ten`).
-/

namespace DeskCalculator.Magnitude

/-- One of the two grid points around the magnitude. -/
def IsNeighbour (m : Magnitude) (n grid : Nat) : Prop :=
  n = m.tenths / Nat.pow 10 grid ∨ n = m.tenths / Nat.pow 10 grid + 1

/-! ### The finest grid -/

theorem ten_pow_pos (k : Nat) : 0 < Nat.pow 10 k := Nat.pow_pos (Nat.succ_pos 9)

theorem mul_five_pow_mul_two_pow (n k : Nat) :
    n * Nat.pow 5 k * Nat.pow 2 k = n * Nat.pow 10 k := by
  rw [Nat.mul_assoc]
  exact congrArg (n * ·) (Nat.mul_pow 5 2 k).symm

theorem tenths_mul_unitsPerOne (m : Magnitude) :
    m.tenths * unitsPerOne = m.units * Nat.pow 10 1074 := by
  unfold tenths unitsPerOne
  generalize 1074 = k
  exact mul_five_pow_mul_two_pow m.units k

/-- On a grid of ones or of places the number is the coefficient. -/
theorem gridPoint_of_le {n grid : Nat} (hgrid : grid ≤ 1074) :
    gridPoint n grid = ⟨n, 1074 - grid⟩ := by
  have hwhole : grid - 1074 = 0 := Nat.sub_eq_zero_of_le hgrid
  rw [gridPoint, hwhole, Nat.pow_eq, Nat.pow_zero, Nat.mul_one]

theorem gridPoint_finest (n : Nat) : gridPoint n 0 = ⟨n, 1074⟩ := gridPoint_of_le (Nat.zero_le _)

-- From here on nothing computes the powers in these.
seal tenths unitsPerOne gridPoint Decimal.magnitude?

/-- On the finest grid lies the exact value. -/
theorem hits_tenths (m : Magnitude) : m.Hits m.tenths 0 := by
  rw [Hits, gridPoint_finest, Decimal.magnitude?, tenths_mul_unitsPerOne]
  generalize 1074 = k
  exact m.ofRatio?_units_mul (ten_pow_pos k)

theorem neighbour?_finest (m : Magnitude) : m.neighbour? 0 = some (gridPoint m.tenths 0) := by
  have hbelow : m.tenths / Nat.pow 10 0 = m.tenths := Nat.div_one m.tenths
  have hrest : m.tenths % Nat.pow 10 0 = 0 := Nat.mod_one m.tenths
  have hnearer : ¬ (m.Hits (m.tenths + 1) 0 ∧ Nat.pow 10 0 ≤ 2 * 0) := fun h =>
    absurd h.2 (by decide)
  simp only [neighbour?, hbelow, hrest, if_pos m.hits_tenths, if_neg hnearer]

/-! ### One grid -/

variable {m : Magnitude}

theorem neighbour?_eq_some {grid : Nat} {decimal : Decimal}
    (h : m.neighbour? grid = some decimal) :
    ∃ n, m.IsNeighbour n grid ∧ m.Hits n grid ∧ decimal = gridPoint n grid := by
  unfold neighbour? at h
  simp only at h
  split at h
  · next hbelow =>
    split at h
    · next habove => exact ⟨_, .inr rfl, habove.1, (Option.some.inj h).symm⟩
    · exact ⟨_, .inl rfl, hbelow, (Option.some.inj h).symm⟩
  · split at h
    · next habove => exact ⟨_, .inr rfl, habove, (Option.some.inj h).symm⟩
    · cases h

/-- Where the search goes on to a finer grid, neither neighbour is read as the magnitude. -/
theorem not_hits_of_neighbour?_eq_none {grid n : Nat} (h : m.neighbour? grid = none)
    (hn : m.IsNeighbour n grid) : ¬ m.Hits n grid := by
  unfold neighbour? at h
  simp only at h
  split at h
  · split at h
    · cases h
    · cases h
  · next hbelow =>
    split at h
    · cases h
    · next habove =>
      rcases hn with rfl | rfl
      · exact hbelow
      · exact habove

/-! ### From coarse to fine -/

seal neighbour?

/-- The search ends at the first grid on which there is something to find. -/
theorem shortestFrom_found (m : Magnitude) (start : Nat) :
    ∃ grid, grid ≤ start ∧ m.neighbour? grid = some (m.shortestFrom start) ∧
      ∀ coarser, grid < coarser → coarser ≤ start → m.neighbour? coarser = none := by
  induction start with
  | zero =>
    refine ⟨0, Nat.le_refl 0, m.neighbour?_finest, ?_⟩
    intro coarser hfine hcoarse
    omega
  | succ start ih =>
    cases hsearch : m.neighbour? (start + 1) with
    | some decimal =>
      refine ⟨start + 1, Nat.le_refl _, ?_, ?_⟩
      · rw [shortestFrom, hsearch, Option.getD_some]
      · intro coarser hfine hcoarse
        omega
    | none =>
      obtain ⟨grid, hgrid, hfound, hcoarser⟩ := ih
      refine ⟨grid, Nat.le_succ_of_le hgrid, ?_, ?_⟩
      · rw [shortestFrom, hsearch, Option.getD_none, hfound]
      · intro coarser hfine hcoarse
        rcases Nat.lt_or_eq_of_le hcoarse with hlt | rfl
        · exact hcoarser coarser hfine (Nat.le_of_lt_succ hlt)
        · exact hsearch

theorem shortestFrom_spec (m : Magnitude) (start : Nat) :
    ∃ n grid, m.shortestFrom start = gridPoint n grid ∧ m.IsNeighbour n grid ∧ m.Hits n grid ∧
      grid ≤ start ∧ ∀ coarser, grid < coarser → coarser ≤ start →
        m.neighbour? coarser = none := by
  obtain ⟨grid, hgrid, hfound, hcoarser⟩ := m.shortestFrom_found start
  obtain ⟨n, hneighbour, hhits, hshortest⟩ := neighbour?_eq_some hfound
  exact ⟨n, grid, hshortest, hneighbour, hhits, hgrid, hcoarser⟩

theorem magnitude?_zero (places : Nat) : Decimal.magnitude? ⟨0, places⟩ = some zero := by
  have hzero := zero.ofRatio?_units_mul (ten_pow_pos places)
  rw [units_zero, Nat.zero_mul] at hzero
  rw [Decimal.magnitude?, Nat.zero_mul, hzero]

/-- What is found is read back. -/
theorem magnitude?_shortest (m : Magnitude) : m.shortest.magnitude? = some m := by
  rw [shortest]
  split
  · next hzero => rw [magnitude?_zero, hzero]
  · obtain ⟨n, grid, hshortest, -, hhits, -⟩ :=
      m.shortestFrom_spec (Nat.toDigits 10 m.tenths).length
    rw [hshortest]
    exact hhits

/-! ### No zero at the end -/

/-- A multiple of ten on a grid of places lies on the next coarser grid too. -/
theorem hits_ten_mul_iff {n grid : Nat} (hgrid : grid < 1074) :
    m.Hits (10 * n) grid ↔ m.Hits n (grid + 1) := by
  have hplaces : 1074 - grid = 1074 - (grid + 1) + 1 := by omega
  have hscale : ofRatio? (10 * n * unitsPerOne) (Nat.pow 10 (1074 - grid))
      = ofRatio? (n * unitsPerOne) (Nat.pow 10 (1074 - (grid + 1))) := by
    rw [hplaces, Nat.pow_eq, Nat.pow_succ', Nat.mul_assoc]
    exact ofRatio?_mul_mul_left _ _ (by decide)
  simp only [Hits, gridPoint_of_le hgrid, gridPoint_of_le (Nat.le_of_lt hgrid),
    Decimal.magnitude?, hscale]

theorem IsNeighbour.coarser {n grid : Nat} (h : m.IsNeighbour (10 * n) grid) :
    m.IsNeighbour n (grid + 1) := by
  have hdiv : m.tenths / Nat.pow 10 (grid + 1) = m.tenths / Nat.pow 10 grid / 10 :=
    (Nat.div_div_eq_div_mul m.tenths (Nat.pow 10 grid) 10).symm
  unfold IsNeighbour at h ⊢
  rw [hdiv]
  omega

theorem eq_zero_of_hits_zero {grid : Nat} (h : m.Hits 0 grid) : m = zero := by
  rw [Hits, gridPoint, Nat.zero_mul, magnitude?_zero] at h
  exact (Option.some.inj h).symm

/-- The search starts on a grid whose step is longer than the value. -/
theorem tenths_lt_start (m : Magnitude) :
    m.tenths < Nat.pow 10 (Nat.toDigits 10 m.tenths).length :=
  (Nat.length_toDigits_le_iff (by decide) Nat.length_toDigits_pos).mp (Nat.le_refl _)

theorem coefficient_shortest_mod_ten (m : Magnitude) (hplaces : 0 < m.shortest.places) :
    m.shortest.coefficient % 10 ≠ 0 := by
  have hm : m ≠ zero := by
    rintro rfl
    rw [shortest, if_pos rfl] at hplaces
    exact Nat.lt_irrefl 0 hplaces
  obtain ⟨n, grid, hshortest, hneighbour, hhits, hgrid, hcoarser⟩ :=
    m.shortestFrom_spec (Nat.toDigits 10 m.tenths).length
  rw [shortest, if_neg hm, hshortest] at hplaces ⊢
  have hplace : grid < 1074 := by
    rw [gridPoint] at hplaces
    exact Nat.lt_of_sub_pos hplaces
  rw [gridPoint_of_le (Nat.le_of_lt hplace)]
  intro hten
  obtain ⟨k, rfl⟩ := Nat.dvd_of_mod_eq_zero hten
  rcases Nat.lt_or_eq_of_le hgrid with hlt | rfl
  · -- the coarser grid was searched, and the same point would have been found there
    exact not_hits_of_neighbour?_eq_none (hcoarser (grid + 1) (Nat.lt_succ_self grid) hlt)
      hneighbour.coarser ((hits_ten_mul_iff hplace).mp hhits)
  · -- on the first grid only 0 and 1 are neighbours
    have hfirst := Nat.div_eq_of_lt m.tenths_lt_start
    have hk : k = 0 := by
      unfold IsNeighbour at hneighbour
      omega
    rw [hk] at hhits
    exact hm (eq_zero_of_hits_zero hhits)

end DeskCalculator.Magnitude
