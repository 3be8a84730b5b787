import DeskCalculator.Cursor
import DeskCalculator.Decimal.Basic

/-!
# Reading numbers

A number in a text is the longest run of digits and points that starts with a
digit.  `readNumber` reads a text that holds one number, with at most one sign in
front and spaces around, and nothing else.
-/

namespace DeskCalculator

/-- What a sign does: whether it changes the sign of what follows. -/
def sign? : Char → Option Bool
  | '+' => some false
  | '-' => some true
  | _ => none

theorem sign?_cases {char : Char} {negative : Bool} (h : sign? char = some negative) :
    (char = '+' ∧ negative = false) ∨ (char = '-' ∧ negative = true) := by
  unfold sign? at h
  split at h
  · exact .inl ⟨rfl, (Option.some.inj h).symm⟩
  · exact .inr ⟨rfl, (Option.some.inj h).symm⟩
  · cases h

namespace Cursor

/-- A run that starts with the character in view is not empty. -/
theorem length_rest_takeWhile_lt {test : Char → Bool} {c : Cursor}
    (hcurrent : c.current.any test = true) :
    (c.takeWhile test).2.rest.length < c.rest.length := by
  unfold current at hcurrent
  cases hrest : c.rest with
  | nil => simp [hrest] at hcurrent
  | cons head rest =>
    have htest : test head = true := by simpa [hrest] using hcurrent
    have hsuffix : (rest.dropWhile test).length ≤ rest.length :=
      (List.dropWhile_suffix _).length_le
    simp only [takeWhile, hrest, List.dropWhile_cons_of_pos htest, List.length_cons]
    omega

theorem length_rest_numeral_lt {c : Cursor} (hdigit : c.current.any Char.isDigit = true) :
    (c.takeWhile Decimal.isNumeralChar).2.rest.length < c.rest.length := by
  apply length_rest_takeWhile_lt
  obtain ⟨char, hcurrent, hchar⟩ := (Option.any_eq_true ..).mp hdigit
  rw [hcurrent]
  exact Bool.or_eq_true_iff.mpr (.inl hchar)

/-- Reads the decimal that starts at the cursor.  A point cannot start it; two points
    in the run spoil it. -/
def decimal (c : Cursor) : Except SyntaxError (Reading Decimal c.rest.length) :=
  if hdigit : c.current.any Char.isDigit = true then
    let run := (c.takeWhile Decimal.isNumeralChar).1
    match Decimal.ofChars? run with
    | some decimal =>
        .ok ⟨decimal, (c.takeWhile Decimal.isNumeralChar).2, length_rest_numeral_lt hdigit⟩
    | none => .error (.malformedNumber (String.ofList run) c.position)
  else .error c.errorHere

end Cursor

/-- Reads one decimal, which only spaces may follow, and gives it the sign. -/
def readUnsigned (negative : Bool) (c : Cursor) : Except SyntaxError Binary64 :=
  match c.decimal with
  | .error e => .error e
  | .ok reading =>
      match reading.next.finish with
      | .error e => .error e
      | .ok () => .ok (reading.value.value.negateIf negative)

/-- Reads a text that is one number with at most one sign. -/
def readNumber (text : String) : Except SyntaxError Binary64 :=
  match (Cursor.ofText text).accept? sign? with
  | some sign => readUnsigned sign.value sign.next.skipSpaces
  | none => readUnsigned false (Cursor.ofText text).skipSpaces

end DeskCalculator
