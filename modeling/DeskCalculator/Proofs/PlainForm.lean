import DeskCalculator.Decimal.Basic

/-!
# Plain positional form

Which texts are numbers written out in full with nothing superfluous: no exponent, no zero
in front of the whole part but a lone one, no zero at the end of the places and no point
without places.  A decimal is written so whenever its last place is not zero
(`Decimal.toChars_eq_append`).
-/

namespace DeskCalculator

/-! ### The form -/

/-- The whole part: `0`, or digits that do not start with it. -/
def IsWhole (text : List Char) : Prop :=
  text = ['0'] ∨ ∃ first rest, text = first :: rest ∧ first.isDigit = true ∧ first ≠ '0' ∧
    ∀ char ∈ rest, char.isDigit = true

/-- The places, if there are any: a point, and digits that do not end with `0`. -/
def IsFraction (text : List Char) : Prop :=
  text = [] ∨ ∃ digits last, text = '.' :: (digits ++ [last]) ∧
    (∀ char ∈ digits, char.isDigit = true) ∧ last.isDigit = true ∧ last ≠ '0'

/-- A sign, if there is one, a whole part and places. -/
def IsPlain (text : List Char) : Prop :=
  ∃ sign whole fraction, text = sign ++ whole ++ fraction ∧ (sign = [] ∨ sign = ['-']) ∧
    IsWhole whole ∧ IsFraction fraction

/-! ### Digits of a number -/

theorem isDigit_of_mem_toDigits {n : Nat} {char : Char} (h : char ∈ Nat.toDigits 10 n) :
    char.isDigit = true :=
  Nat.isDigit_of_mem_toDigits (by decide) (by decide) h

/-- The digits of a number end with its residue. -/
theorem toDigits_eq_append_last (n : Nat) :
    ∃ digits, Nat.toDigits 10 n = digits ++ [(n % 10).digitChar] := by
  by_cases h : n < 10
  · exact ⟨[], by rw [Nat.toDigits_of_lt_base h, Nat.mod_eq_of_lt h]; rfl⟩
  · exact ⟨_, Nat.toDigits_of_base_le (by decide) (Nat.le_of_not_lt h)⟩

/-- The digits of a number do not start with `0`, unless it is zero. -/
theorem toDigits_eq_first_cons {n : Nat} (hn : n ≠ 0) :
    ∃ first rest, Nat.toDigits 10 n = first :: rest ∧ first ≠ '0' := by
  induction n using Nat.strongRecOn with
  | ind n ih =>
    by_cases h : n < 10
    · refine ⟨n.digitChar, [], Nat.toDigits_of_lt_base h, ?_⟩
      intro hzero
      exact hn (Nat.digitChar_eq_zero.mp hzero)
    · have hten : 10 ≤ n := Nat.le_of_not_lt h
      obtain ⟨first, rest, hdigits, hfirst⟩ := ih (n / 10) (by omega) (by omega)
      refine ⟨first, rest ++ [(n % 10).digitChar], ?_, hfirst⟩
      rw [Nat.toDigits_of_base_le (by decide) hten, hdigits, List.cons_append]

theorem isWhole_toDigits (n : Nat) : IsWhole (Nat.toDigits 10 n) := by
  by_cases hn : n = 0
  · left
    rw [hn, Nat.toDigits_zero]
  · right
    obtain ⟨first, rest, hdigits, hfirst⟩ := toDigits_eq_first_cons hn
    have hall : ∀ char ∈ first :: rest, char.isDigit = true := fun char hchar =>
      isDigit_of_mem_toDigits (hdigits ▸ hchar)
    exact ⟨first, rest, hdigits, hall first List.mem_cons_self, hfirst, fun char hchar =>
      hall char (List.mem_cons_of_mem first hchar)⟩

/-! ### Written decimals -/

namespace Decimal

/-- Zeros stand in front of the digits only if all digits are places. -/
theorem isWhole_take_paddedDigits {d : Decimal} (hlast : d.coefficient % 10 ≠ 0) :
    IsWhole (d.paddedDigits.take (d.paddedDigits.length - d.places)) := by
  have hcoefficient : d.coefficient ≠ 0 := by
    intro hzero
    exact hlast (by rw [hzero])
  rcases Nat.lt_or_ge d.places (Nat.toDigits 10 d.coefficient).length with hlong | hshort
  · obtain ⟨first, rest, hdigits, hfirst⟩ := toDigits_eq_first_cons hcoefficient
    have hpadded : d.paddedDigits = first :: rest := by
      rw [paddedDigits, Nat.sub_eq_zero_of_le hlong, List.replicate_zero, List.nil_append,
        hdigits]
    have hall : ∀ char ∈ first :: rest, char.isDigit = true := fun char hchar =>
      isDigit_of_mem_toDigits (hdigits ▸ hchar)
    have hlength : (first :: rest).length - d.places = rest.length - d.places + 1 := by
      rw [hdigits] at hlong
      simp only [List.length_cons] at hlong ⊢
      omega
    right
    refine ⟨first, rest.take (rest.length - d.places), ?_, hall first List.mem_cons_self, hfirst,
      fun char hchar => hall char (List.mem_cons_of_mem first (List.mem_of_mem_take hchar))⟩
    rw [hpadded, hlength, List.take_succ_cons]
  · left
    have hzeros : d.places + 1 - (Nat.toDigits 10 d.coefficient).length
        = d.places - (Nat.toDigits 10 d.coefficient).length + 1 := by
      omega
    have hpadded : d.paddedDigits = '0' ::
        (List.replicate (d.places - (Nat.toDigits 10 d.coefficient).length) '0'
          ++ Nat.toDigits 10 d.coefficient) := by
      rw [paddedDigits, hzeros, List.replicate_succ, List.cons_append]
    have hlength : d.paddedDigits.length - d.places = 1 := by
      rw [hpadded, List.length_cons, List.length_append, List.length_replicate]
      omega
    rw [hlength, hpadded, List.take_succ_cons, List.take_zero]

theorem isFraction_drop_paddedDigits {d : Decimal} (hplaces : 0 < d.places)
    (hlast : d.coefficient % 10 ≠ 0) :
    IsFraction ('.' :: d.paddedDigits.drop (d.paddedDigits.length - d.places)) := by
  obtain ⟨digits, hdigits⟩ := toDigits_eq_append_last d.coefficient
  obtain ⟨front, hpadded⟩ : ∃ front, d.paddedDigits = front ++ [(d.coefficient % 10).digitChar] :=
    ⟨_, by rw [paddedDigits, hdigits, ← List.append_assoc]⟩
  have hwhole : d.paddedDigits.length - d.places ≤ front.length := by
    rw [hpadded, List.length_append, List.length_singleton]
    omega
  right
  refine ⟨front.drop (d.paddedDigits.length - d.places), (d.coefficient % 10).digitChar, ?_,
    fun char hchar => ?_, ?_, ?_⟩
  · rw [← List.drop_append_of_le_length hwhole, ← hpadded]
  · apply isDigit_of_mem_paddedDigits (d := d)
    rw [hpadded]
    exact List.mem_append_left _ (List.mem_of_mem_drop hchar)
  · rw [Nat.isDigit_digitChar]
    exact decide_eq_true (Nat.mod_lt _ (by decide))
  · intro hzero
    exact hlast (Nat.digitChar_eq_zero.mp hzero)

/-- A decimal whose last place is not `0` is written with nothing superfluous. -/
theorem toChars_eq_append {d : Decimal} (hlast : 0 < d.places → d.coefficient % 10 ≠ 0) :
    ∃ whole fraction, d.toChars = whole ++ fraction ∧ IsWhole whole ∧ IsFraction fraction := by
  unfold toChars
  split
  · next hplaces =>
    have hpadded : d.paddedDigits = Nat.toDigits 10 d.coefficient := by
      rw [paddedDigits, hplaces, Nat.sub_eq_zero_of_le Nat.length_toDigits_pos,
        List.replicate_zero, List.nil_append]
    refine ⟨d.paddedDigits, [], (List.append_nil _).symm, ?_, .inl rfl⟩
    rw [hpadded]
    exact isWhole_toDigits d.coefficient
  · next hplaces =>
    have hpos := Nat.pos_of_ne_zero hplaces
    exact ⟨_, _, rfl, isWhole_take_paddedDigits (hlast hpos),
      isFraction_drop_paddedDigits hpos (hlast hpos)⟩

end Decimal

end DeskCalculator
