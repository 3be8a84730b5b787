import DeskCalculator.Decimal.Basic

/-!
# The shortest decimal of a number

Many decimals are read as the same binary number; the one that is shown has the
fewest digits, and among those of that many digits it is nearest to the exact
value.

The exact value of a magnitude is itself a decimal, with at most 1074 places.
Around it lie ever finer grids: the multiples of a power of ten.  On each grid
only the two neighbours of the value need a look, because if any point of the
grid is read as the number then so is one of them.  The search goes from coarse to
fine and stops at the first grid on which a neighbour is read as the number.
Whether it is, is decided by reading it.  On the finest grid lies the value
itself, so the search always ends with an answer.
-/

namespace DeskCalculator

namespace Magnitude

/-- The exact value of the magnitude as a multiple of `10 ^ -1074`. -/
def tenths (m : Magnitude) : Nat := m.units * Nat.pow 5 1074

/-- The decimal `n * 10 ^ grid` in multiples of `10 ^ -1074`; on grids of whole
    numbers it has no places. -/
def gridPoint (n grid : Nat) : Decimal :=
  ⟨n * Nat.pow 10 (grid - 1074), 1074 - grid⟩

/-- A point of a grid hits the magnitude if it is read as the magnitude. -/
def Hits (m : Magnitude) (n grid : Nat) : Prop := (gridPoint n grid).magnitude? = some m

instance (m : Magnitude) (n grid : Nat) : Decidable (m.Hits n grid) :=
  inferInstanceAs (Decidable (_ = _))

/-- The neighbour of the magnitude on a grid that is read as the magnitude.  Of two,
    the nearer; of two equally near, the larger. -/
def neighbour? (m : Magnitude) (grid : Nat) : Option Decimal :=
  let step := Nat.pow 10 grid
  let below := m.tenths / step
  let rest := m.tenths % step
  if m.Hits below grid then
    if m.Hits (below + 1) grid ∧ step ≤ 2 * rest then some (gridPoint (below + 1) grid)
    else some (gridPoint below grid)
  else if m.Hits (below + 1) grid then some (gridPoint (below + 1) grid)
  else none

/-- The first hit from the given grid down to the finest, which holds the value. -/
def shortestFrom (m : Magnitude) : Nat → Decimal
  | 0 => gridPoint m.tenths 0
  | grid + 1 => (m.neighbour? (grid + 1)).getD (m.shortestFrom grid)

/-- The decimal with the fewest digits that is read as the magnitude.  The search
    starts on the grid whose step is longer than the value. -/
def shortest (m : Magnitude) : Decimal :=
  if m = .zero then ⟨0, 0⟩
  else m.shortestFrom (Nat.toDigits 10 m.tenths).length

end Magnitude

end DeskCalculator
