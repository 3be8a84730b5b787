import DeskCalculator.Binary64.Rounding

/-!
# Decimal numerals

A decimal is a whole coefficient and a count of places after the point.  It is
read from a run of digits and points, and written in plain positional form.
Reading back what was written gives the same decimal (`ofChars?_toChars`).
-/

namespace DeskCalculator

/-- The decimal `coefficient / 10 ^ places`, not negative. -/
structure Decimal where
  coefficient : Nat
  places : Nat
  deriving DecidableEq, Repr

namespace Decimal

/-! ### Reading a numeral -/

/-- The characters of a numeral; only `0` to `9` are digits. -/
def isNumeralChar (c : Char) : Bool := c.isDigit || c == '.'

/-- The decimal written by a run of digits and points, if it has at most one point.
    The point may stand last. -/
def ofChars? (run : List Char) : Option Decimal :=
  let whole := run.takeWhile (· != '.')
  match run.dropWhile (· != '.') with
  | [] => some ⟨Nat.ofDigitChars 10 whole 0, 0⟩
  | _ :: fraction =>
      if '.' ∈ fraction then none
      else some ⟨Nat.ofDigitChars 10 (whole ++ fraction) 0, fraction.length⟩

theorem ofChars?_whole {whole : List Char} (hwhole : '.' ∉ whole) :
    ofChars? whole = some ⟨Nat.ofDigitChars 10 whole 0, 0⟩ := by
  have hpass : ∀ c ∈ whole, (c != '.') = true := fun c hc =>
    bne_iff_ne.mpr fun h => hwhole (h ▸ hc)
  have htake := @List.takeWhile_append_of_pos _ _ whole [] hpass
  have hdrop := @List.dropWhile_append_of_pos _ _ whole [] hpass
  simp only [List.append_nil, List.takeWhile_nil, List.dropWhile_nil] at htake hdrop
  simp only [ofChars?, htake, hdrop]

theorem ofChars?_point {whole fraction : List Char} (hwhole : '.' ∉ whole)
    (hfraction : '.' ∉ fraction) :
    ofChars? (whole ++ '.' :: fraction)
      = some ⟨Nat.ofDigitChars 10 (whole ++ fraction) 0, fraction.length⟩ := by
  have hpass : ∀ c ∈ whole, (c != '.') = true := fun c hc =>
    bne_iff_ne.mpr fun h => hwhole (h ▸ hc)
  simp [ofChars?, List.takeWhile_append_of_pos hpass, List.dropWhile_append_of_pos hpass,
    hfraction]

/-! ### Writing a numeral -/

/-- The digits of the coefficient, with zeros in front where the places need them:
    at least one digit stands before the point. -/
def paddedDigits (d : Decimal) : List Char :=
  let digits := Nat.toDigits 10 d.coefficient
  List.replicate (d.places + 1 - digits.length) '0' ++ digits

/-- Positional form; no point without places after it. -/
def toChars (d : Decimal) : List Char :=
  if d.places = 0 then d.paddedDigits
  else
    let whole := d.paddedDigits.length - d.places
    d.paddedDigits.take whole ++ '.' :: d.paddedDigits.drop whole

theorem isDigit_of_mem_paddedDigits {d : Decimal} {c : Char} (hc : c ∈ d.paddedDigits) :
    c.isDigit = true := by
  rcases List.mem_append.mp hc with hzero | hdigit
  · rw [List.eq_of_mem_replicate hzero]
    rfl
  · exact Nat.isDigit_of_mem_toDigits (by decide) (by decide) hdigit

theorem point_not_mem_paddedDigits (d : Decimal) : '.' ∉ d.paddedDigits := fun h =>
  absurd (isDigit_of_mem_paddedDigits h) (by decide)

theorem places_lt_length_paddedDigits (d : Decimal) : d.places < d.paddedDigits.length := by
  simp only [paddedDigits, List.length_append, List.length_replicate]
  omega

theorem ofDigitChars_paddedDigits (d : Decimal) :
    Nat.ofDigitChars 10 d.paddedDigits 0 = d.coefficient := by
  simp [paddedDigits, Nat.ofDigitChars_append, Nat.ofDigitChars_replicate_zero,
    Nat.ofDigitChars_ten_toDigits]

/-- A written decimal is read back as itself, its trailing zeros included. -/
theorem ofChars?_toChars (d : Decimal) : ofChars? d.toChars = some d := by
  have hpoint := point_not_mem_paddedDigits d
  unfold toChars
  split
  · next hplaces =>
    rw [ofChars?_whole hpoint, ofDigitChars_paddedDigits, ← hplaces]
  · have hlength := places_lt_length_paddedDigits d
    simp only
    rw [ofChars?_point (fun h => hpoint (List.mem_of_mem_take h))
      (fun h => hpoint (List.mem_of_mem_drop h)), List.take_append_drop,
      ofDigitChars_paddedDigits, List.length_drop, Nat.sub_sub_self (Nat.le_of_lt hlength)]

/-! ### Value -/

/-- The magnitude nearest to the decimal, if it is in range. -/
def magnitude? (d : Decimal) : Option Magnitude :=
  Magnitude.ofRatio? (d.coefficient * unitsPerOne) (Nat.pow 10 d.places)

/-- The number nearest to the decimal; too large a decimal is infinite. -/
def value (d : Decimal) : Binary64 := .orInfinite false d.magnitude?

end Decimal

end DeskCalculator
