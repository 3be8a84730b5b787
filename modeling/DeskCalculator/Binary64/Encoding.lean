import DeskCalculator.Binary64.Basic

/-!
# Interchange bits

A number as a word of 64 bits: the sign on top, below it the rank of the
magnitude.  The ranks above the finite ones are the infinity, whose rank comes
next, and the patterns of "not a number", which are all read as the same value.
-/

namespace DeskCalculator.Binary64

/-- Rank of infinity, one above the largest finite one. -/
def infinityRank : Nat := 2047 * binadeSize

/-- The sign, as part of a word. -/
def signBit : Nat := 2048 * binadeSize

/-- The number with the given interchange bits. -/
def ofBits (bits : UInt64) : Binary64 :=
  let negative := decide (signBit ≤ bits.toNat)
  let rank := bits.toNat % signBit
  if rank_lt : rank < 2047 * binadeSize then .finite negative ⟨rank, rank_lt⟩
  else if rank = infinityRank then .infinite negative
  else .nan

/-- The interchange bits of a number; for "not a number" the first of the quiet
    patterns. -/
def toBits : Binary64 → UInt64
  | .finite negative magnitude => .ofNat (negative.toNat * signBit + magnitude.rank)
  | .infinite negative => .ofNat (negative.toNat * signBit + infinityRank)
  | .nan => .ofNat (infinityRank + binadeSize / 2)

theorem toNat_toBits_finite (negative : Bool) (magnitude : Magnitude) :
    (toBits (.finite negative magnitude)).toNat
      = negative.toNat * signBit + magnitude.rank := by
  have hrank := magnitude.rank_lt
  have hsign := Bool.toNat_lt negative
  apply UInt64.toNat_ofNat_of_lt'
  unfold binadeSize at hrank
  simp only [UInt64.size, signBit, binadeSize]
  omega

theorem toNat_toBits_infinite (negative : Bool) :
    (toBits (.infinite negative)).toNat = negative.toNat * signBit + infinityRank := by
  cases negative <;> rfl

/-- Every number has bits of its own. -/
theorem ofBits_toBits (x : Binary64) : ofBits x.toBits = x := by
  cases x with
  | finite negative magnitude =>
    have hrank := magnitude.rank_lt
    have hlow : (negative.toNat * signBit + magnitude.rank) % signBit = magnitude.rank := by
      unfold binadeSize at hrank
      unfold signBit binadeSize
      omega
    have hsign : decide (signBit ≤ negative.toNat * signBit + magnitude.rank) = negative := by
      unfold binadeSize at hrank
      unfold signBit binadeSize
      cases negative with
      | false => exact decide_eq_false (by simp only [Bool.toNat_false]; omega)
      | true => exact decide_eq_true (by simp only [Bool.toNat_true]; omega)
    rw [ofBits, toNat_toBits_finite]
    simp only [hlow, hsign, dif_pos hrank]
  | infinite negative => cases negative <;> rfl
  | nan => rfl

/-- All bits of a number come back, unless it is none. -/
theorem toBits_ofBits {bits : UInt64} (h : ofBits bits ≠ .nan) : (ofBits bits).toBits = bits := by
  have hbits := bits.toNat_lt
  apply UInt64.toNat_inj.mp
  unfold ofBits at h ⊢
  simp only at h ⊢
  split
  · rw [toNat_toBits_finite]
    by_cases hsign : signBit ≤ bits.toNat
    · simp only [hsign, decide_true, Bool.toNat_true, Nat.one_mul]
      unfold signBit binadeSize at hsign ⊢
      omega
    · simp only [hsign, decide_false, Bool.toNat_false, Nat.zero_mul, Nat.zero_add]
      exact Nat.mod_eq_of_lt (Nat.lt_of_not_le hsign)
  · next hrank =>
    rw [dif_neg hrank] at h
    split
    · next hinfinity =>
      rw [toNat_toBits_infinite]
      by_cases hsign : signBit ≤ bits.toNat
      · simp only [hsign, decide_true, Bool.toNat_true, Nat.one_mul]
        unfold signBit binadeSize at hsign hinfinity ⊢
        omega
      · simp only [hsign, decide_false, Bool.toNat_false, Nat.zero_mul, Nat.zero_add]
        rw [← hinfinity]
        exact Nat.mod_eq_of_lt (Nat.lt_of_not_le hsign)
    · next hinfinity =>
      rw [if_neg hinfinity] at h
      exact absurd rfl h

end DeskCalculator.Binary64
