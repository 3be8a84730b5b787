/-!
# Binary floating-point numbers of 64 bits

The numbers the calculator works with.  A finite number is a sign and a
`Magnitude`; beside the finite ones stand two infinities and one value that is
no number.  There is exactly one value of the type for each number, so two
numbers are equal here precisely when they have the same interchange bits (the
many patterns of "not a number" counting as one).

A magnitude is stored as its *rank*: the magnitudes in increasing order are
`0, 1, 2, …`, and rank `r` is the `r`-th of them.  Significand and exponent are
read off the rank, and `units` gives the exact value as a whole number of least
subnormals, `2 ^ -1074`.  All exact reasoning goes through `units`.
-/

namespace DeskCalculator

/-- How many least subnormals make up the number one. -/
def unitsPerOne : Nat := Nat.pow 2 1074

/-- How many normal numbers share an exponent: the significand has 52 bits below its
    leading one. -/
def binadeSize : Nat := 4503599627370496

theorem binadeSize_eq : binadeSize = Nat.pow 2 52 := rfl

/-! ### Magnitudes -/

/-- A finite magnitude, named by its place in the increasing order of all of them.
    The subnormals come first, then the normal numbers of each of 2046 exponents. -/
structure Magnitude where
  rank : Nat
  rank_lt : rank < 2047 * binadeSize
  deriving DecidableEq, Repr

namespace Magnitude

/-- Exponent of the last place, counted from that of the subnormals. -/
def exponent (m : Magnitude) : Nat := m.rank / binadeSize - 1

/-- Whole number of last places: less than `binadeSize` for subnormals only. -/
def significand (m : Magnitude) : Nat := m.rank - binadeSize * m.exponent

/-- The exact value as a multiple of `2 ^ -1074`. -/
def units (m : Magnitude) : Nat := m.significand * Nat.pow 2 m.exponent

/-- The magnitude of zero. -/
def zero : Magnitude := ⟨0, by decide⟩

theorem rank_eq (m : Magnitude) : m.rank = binadeSize * m.exponent + m.significand := by
  unfold significand exponent binadeSize
  omega

theorem significand_lt (m : Magnitude) : m.significand < 2 * binadeSize := by
  unfold significand exponent binadeSize
  omega

/-- Only in the lowest binade can the leading bit be missing. -/
theorem le_significand_or_exponent_eq_zero (m : Magnitude) :
    binadeSize ≤ m.significand ∨ m.exponent = 0 := by
  unfold significand exponent binadeSize
  omega

theorem exponent_le (m : Magnitude) : m.exponent ≤ 2045 := by
  have hrank := m.rank_lt
  unfold binadeSize at hrank
  unfold exponent binadeSize
  omega

theorem units_zero : zero.units = 0 := rfl

theorem units_eq_zero_iff {m : Magnitude} : m.units = 0 ↔ m = zero := by
  constructor
  · intro h
    have hs : m.significand = 0 :=
      (Nat.mul_eq_zero.mp h).resolve_right (Nat.ne_of_gt (Nat.two_pow_pos m.exponent))
    have hr : m.rank = 0 := by
      have hrank := m.rank_eq
      have hnormal := m.le_significand_or_exponent_eq_zero
      unfold binadeSize at hrank hnormal
      omega
    cases m
    simp_all [zero]
  · rintro rfl
    exact units_zero

end Magnitude

/-! ### Numbers -/

/-- A binary floating-point number of 64 bits. -/
inductive Binary64 where
  /-- A finite number; zero has both signs. -/
  | finite (negative : Bool) (magnitude : Magnitude)
  /-- An infinity, from overflow or division by zero. -/
  | infinite (negative : Bool)
  /-- Not a number. -/
  | nan
  deriving DecidableEq, Repr

namespace Binary64

/-- Zero of either sign. -/
def zero (negative : Bool) : Binary64 := .finite negative .zero

def isFinite : Binary64 → Bool
  | .finite _ _ => true
  | _ => false

/-- Changes the sign, of zeros and infinities too. -/
def neg : Binary64 → Binary64
  | .finite negative magnitude => .finite (!negative) magnitude
  | .infinite negative => .infinite (!negative)
  | .nan => .nan

instance : Neg Binary64 := ⟨neg⟩

theorem neg_neg (x : Binary64) : - -x = x := by
  cases x <;> simp [Neg.neg, neg]

/-- Changes the sign if a minus sign, or an odd number of them, stands before. -/
def negateIf (negative : Bool) (x : Binary64) : Binary64 := if negative then -x else x

theorem isFinite_neg (x : Binary64) : (-x).isFinite = x.isFinite := by
  cases x <;> rfl

/-- The exact signed value of a finite number as a multiple of `2 ^ -1074`; the
    others have none, and count as zero. -/
def signedUnits : Binary64 → Int
  | .finite false magnitude => magnitude.units
  | .finite true magnitude => -magnitude.units
  | _ => 0

theorem signedUnits_neg (x : Binary64) : (-x).signedUnits = -x.signedUnits := by
  cases x with
  | finite negative magnitude =>
    cases negative with
    | false => rfl
    | true => exact (Int.neg_neg _).symm
  | infinite negative => rfl
  | nan => rfl

end Binary64

end DeskCalculator
