import DeskCalculator.Binary64.Rounding

/-!
# Square roots

The root of a number is irrational more often than not, so it is not a quotient
to be rounded.  It is enough to know the whole number below it: the root of the
least subnormal already measures `2 ^ 537` units, so between two consecutive
whole numbers of units no number of the format lies, nor a point halfway between
two of them.  Every value strictly between the two rounds alike, and the point
in the middle stands for them all.
-/

namespace DeskCalculator

/-- The whole part of the square root of `n`, for `n` less than `4 ^ digits`: each base-four
    digit of `n` gives one bit of the root. -/
def floorSqrtOfDigits : Nat → Nat → Nat
  | 0, _ => 0
  | digits + 1, n =>
      let root := 2 * floorSqrtOfDigits digits (n / 4)
      if (root + 1) * (root + 1) ≤ n then root + 1 else root

/-- The whole part of the square root. -/
def floorSqrt (n : Nat) : Nat := floorSqrtOfDigits (n.log2 / 2 + 1) n

theorem floorSqrtOfDigits_le_and_lt {digits n : Nat} (hn : n < Nat.pow 4 digits) :
    floorSqrtOfDigits digits n * floorSqrtOfDigits digits n ≤ n ∧
      n < (floorSqrtOfDigits digits n + 1) * (floorSqrtOfDigits digits n + 1) := by
  induction digits generalizing n with
  | zero =>
    have hzero : n = 0 := Nat.lt_one_iff.mp hn
    subst hzero
    exact ⟨Nat.le_refl 0, Nat.zero_lt_one⟩
  | succ digits ih =>
    have hquarter : n / 4 < Nat.pow 4 digits := by
      rw [Nat.div_lt_iff_lt_mul (by decide)]
      exact hn
    obtain ⟨hle, hlt⟩ := ih hquarter
    rw [floorSqrtOfDigits]
    generalize floorSqrtOfDigits digits (n / 4) = r at hle hlt
    have hsquare : 2 * r * (2 * r) = 4 * (r * r) := Nat.mul_mul_mul_comm 2 r 2 r
    have hnext : (2 * r + 2) * (2 * r + 2) = 4 * ((r + 1) * (r + 1)) :=
      Nat.mul_mul_mul_comm 2 (r + 1) 2 (r + 1)
    split
    · next hroot =>
      refine ⟨hroot, ?_⟩
      rw [hnext]
      omega
    · next hroot =>
      refine ⟨?_, Nat.not_le.mp hroot⟩
      rw [hsquare]
      omega

theorem lt_pow_four (n : Nat) : n < Nat.pow 4 (n.log2 / 2 + 1) := by
  have hlog : n < Nat.pow 2 (n.log2 + 1) := Nat.lt_log2_self
  have hpow : Nat.pow 4 (n.log2 / 2 + 1) = Nat.pow 2 (2 * (n.log2 / 2 + 1)) :=
    (Nat.pow_mul 2 2 (n.log2 / 2 + 1)).symm
  rw [hpow]
  exact Nat.lt_of_lt_of_le hlog (Nat.pow_le_pow_right (by decide) (by omega))

/-- The root is the largest whole number whose square does not exceed `n`. -/
theorem floorSqrt_le_and_lt (n : Nat) :
    floorSqrt n * floorSqrt n ≤ n ∧ n < (floorSqrt n + 1) * (floorSqrt n + 1) :=
  floorSqrtOfDigits_le_and_lt (lt_pow_four n)

namespace Binary64

/-- The square root rounded to the nearest number.  A negative zero is its own root,
    other negative numbers have none. -/
def sqrt : Binary64 → Binary64
  | .nan => .nan
  | .infinite negative => if negative then .nan else .infinite false
  | .finite negative magnitude =>
      if magnitude = .zero then .finite negative magnitude
      else if negative then .nan
      else
        let square := magnitude.units * unitsPerOne
        let root := floorSqrt square
        if root * root = square then ofRatio false root 1
        else ofRatio false (2 * root + 1) 2

end Binary64

end DeskCalculator
