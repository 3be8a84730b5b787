import DeskCalculator.Proofs.Numeral
import DeskCalculator.Proofs.OnePassReader

/-!
# Reading a single number

`readNumber` looks for a sign, and then for a decimal that is all there is left.  The
second step is the same with and without a sign (`readUnsigned`), so a signed numeral is
read in one argument (`readNumber_minusIf`).
-/

namespace DeskCalculator

/-- A minus sign, or nothing. -/
def minusIf (negative : Bool) : List Char := if negative then ['-'] else []

theorem readNumber_of_sign {text : String} {start : Cursor} (htext : Cursor.ofText text = start)
    {sign : Reading Bool start.rest.length} (hsign : start.accept? sign? = some sign) :
    readNumber text = readUnsigned sign.value sign.next.skipSpaces := by
  subst htext
  rw [readNumber, hsign]

theorem readNumber_of_no_sign {text : String} {start : Cursor} (htext : Cursor.ofText text = start)
    (hsign : start.accept? sign? = none) :
    readNumber text = readUnsigned false start.skipSpaces := by
  subst htext
  rw [readNumber, hsign]

/-! ### Numerals -/

theorem skipSpaces_of_head? {c : Cursor} (h : c.rest.head? ≠ some ' ') : c.skipSpaces = c := by
  obtain ⟨position, rest⟩ := c
  cases rest with
  | nil => rfl
  | cons char rest =>
    have hchar : char ≠ ' ' := by simpa using h
    simp [Cursor.skipSpaces, Cursor.takeWhile, hchar]

section Numeral

variable {run : List Char} {decimal : Decimal}

theorem Decimal.Numeral.head?_ne (h : Numeral run decimal) {char : Char}
    (hchar : char.isDigit = false) : run.head? ≠ some char := by
  intro hhead
  have hdigit := h.head
  rw [hhead, Option.any_some, hchar] at hdigit
  cases hdigit

theorem skipSpaces_of_numeral (h : Decimal.Numeral run decimal) (position : Nat) :
    (Cursor.mk position run).skipSpaces = ⟨position, run⟩ :=
  skipSpaces_of_head? (h.head?_ne rfl)

theorem readUnsigned_of_numeral (h : Decimal.Numeral run decimal) (negative : Bool)
    (position : Nat) :
    readUnsigned negative ⟨position, run⟩ = .ok (decimal.value.negateIf negative) := by
  have htake := @List.takeWhile_append_of_pos _ _ run [] h.chars
  have hdrop := @List.dropWhile_append_of_pos _ _ run [] h.chars
  simp only [List.append_nil, List.takeWhile_nil, List.dropWhile_nil] at htake hdrop
  have hcurrent : (Cursor.mk position run).current.any Char.isDigit = true := h.head
  simp only [readUnsigned, Cursor.decimal, hcurrent, dif_pos, Cursor.takeWhile, htake, h.reads,
    hdrop]
  rfl

theorem accept?_sign?_of_numeral (h : Decimal.Numeral run decimal) (position : Nat) :
    (Cursor.mk position run).accept? sign? = none := by
  cases haccept : (Cursor.mk position run).accept? sign? with
  | none => rfl
  | some sign =>
    obtain ⟨char, hrest, hsign, -⟩ := Cursor.accept?_eq_some haccept
    rw [skipSpaces_of_numeral h] at hrest
    have hhead : run.head? = some char := congrArg List.head? hrest
    have hdigit := h.head
    rw [hhead, Option.any_some] at hdigit
    rw [Scan.sign?_of_isDigit hdigit] at hsign
    cases hsign

theorem readNumber_minusIf (h : Decimal.Numeral run decimal) (negative : Bool) {text : String}
    (htext : text.toList = minusIf negative ++ run) :
    readNumber text = .ok (decimal.value.negateIf negative) := by
  have hstart : Cursor.ofText text = ⟨0, minusIf negative ++ run⟩ := congrArg (Cursor.mk 0) htext
  cases negative with
  | false =>
    rw [readNumber_of_no_sign hstart (accept?_sign?_of_numeral h 0), minusIf, if_neg nofun,
      List.nil_append, skipSpaces_of_numeral h]
    exact readUnsigned_of_numeral h false 0
  | true =>
    have hsign : (Cursor.mk 0 (minusIf true ++ run)).accept? sign?
        = some ⟨true, ⟨1, run⟩, Nat.lt_succ_self _⟩ := rfl
    rw [readNumber_of_sign hstart hsign, skipSpaces_of_numeral h]
    exact readUnsigned_of_numeral h true 1

end Numeral

end DeskCalculator
