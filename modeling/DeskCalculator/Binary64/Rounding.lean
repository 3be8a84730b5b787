import DeskCalculator.Binary64.Basic

/-!
# Rounding to the nearest number

Every inexact step of the calculator (reading a numeral, adding, multiplying,
dividing, extracting a root) forms one exact quotient of whole numbers and
rounds it once, here.  The nearest number wins, of two equally near ones the
one with an even significand, and what is too large becomes an infinity.
-/

namespace DeskCalculator

/-- The whole number nearest to `num / den`; halfway between two, the even one. -/
def nearestEven (num den : Nat) : Nat :=
  let floor := num / den
  let twice := 2 * (num % den)
  if twice < den then floor
  else if den < twice then floor + 1
  else floor + floor % 2

theorem nearestEven_le (num den : Nat) : nearestEven num den ≤ num / den + 1 := by
  simp only [nearestEven]
  split
  · omega
  · split <;> omega

theorem le_nearestEven (num den : Nat) : num / den ≤ nearestEven num den := by
  simp only [nearestEven]
  split
  · omega
  · split <;> omega

/-- A quotient that is whole is left as it is. -/
theorem nearestEven_mul_left (n : Nat) {den : Nat} (hden : 0 < den) :
    nearestEven (n * den) den = n := by
  simp [nearestEven, hden]

/-- The magnitude nearest to `num / den` least subnormals, if it is in range.

    The last place is chosen so that 53 bits stand before it, or is that of the
    subnormals where fewer do.  Ranks grow by `binadeSize` from one exponent to the next,
    so a significand that rounds up to twice that size needs no treatment of its own: the
    sum is already the rank of the first number with the next exponent. -/
def Magnitude.ofRatio? (num den : Nat) : Option Magnitude :=
  let exponent := (num / den).log2 - 52
  let rank := binadeSize * exponent + nearestEven num (den * Nat.pow 2 exponent)
  if rank_lt : rank < 2047 * binadeSize then some ⟨rank, rank_lt⟩ else none

namespace Binary64

/-- The number with the given sign and magnitude; out of range, it is infinite. -/
def orInfinite (negative : Bool) : Option Magnitude → Binary64
  | some magnitude => .finite negative magnitude
  | none => .infinite negative

/-- The number nearest to `num / den` least subnormals, with the given sign. -/
def ofRatio (negative : Bool) (num den : Nat) : Binary64 :=
  orInfinite negative (Magnitude.ofRatio? num den)

/-- The number nearest to a whole number of least subnormals.  An exact zero has no
    sign of its own and takes the one given. -/
def ofUnits (zeroNegative : Bool) (units : Int) : Binary64 :=
  if units = 0 then zero zeroNegative else ofRatio (units < 0) units.natAbs 1

end Binary64

end DeskCalculator
