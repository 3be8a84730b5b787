import DeskCalculator.Binary64.SquareRoot
import DeskCalculator.Evaluation
import DeskCalculator.Key

/-!
# The calculator

A calculator holds the text typed so far (the entry), the text it shows (the
display) and its settings.  A result becomes the new entry, as the text that shows
it, so the next key goes on from there.  A failed calculation empties the entry and shows
`Error`.

There is no stored flag for being in error: the calculator is in error exactly
when it shows `Error` and the entry is empty.
-/

namespace DeskCalculator

/-- What is shown in place of a result that could not be computed. -/
def errorText : String := "Error"

/-- The state of a calculator. -/
structure Calculator where
  entry : String
  display : String
  settings : Settings
  deriving DecidableEq, Repr

namespace Calculator

/-- A calculator nobody has touched. -/
def new (settings : Settings) : Calculator := ⟨"", "", settings⟩

/-! ### Changes of the state -/

/-- Puts a character at the end of the entry. -/
def append (c : Calculator) (char : Char) : Calculator :=
  { c with entry := c.entry.push char, display := c.entry.push char }

/-- Empties the entry and the display. -/
def clear (c : Calculator) : Calculator := { c with entry := "", display := "" }

/-- Takes back the last character of the entry.  With nothing to take back, the display
    stays as it is. -/
def backspace (c : Calculator) : Calculator :=
  if c.entry = "" then c
  else
    let entry := String.ofList c.entry.toList.dropLast
    { c with entry, display := entry }

/-- Shows a result, which is the entry from now on. -/
def showResult (c : Calculator) (x : Binary64) : Calculator :=
  { c with entry := x.text, display := x.text }

/-- Shows that a calculation failed. -/
def showError (c : Calculator) : Calculator := { c with entry := "", display := errorText }

/-- Whether the last calculation failed and nothing has been done since. -/
def inError (c : Calculator) : Bool := c.display == errorText && c.entry == ""

/-! ### Calculations -/

/-- Shows the outcome of a calculation. -/
def showOutcome {ε : Type} (c : Calculator) (outcome : Except ε Binary64) : Calculator :=
  match outcome with
  | .ok x => c.showResult x
  | .error _ => c.showError

/-- The entry as a single number; an entry without anything but spaces counts as zero. -/
def operand (c : Calculator) : Except SyntaxError Binary64 :=
  if c.entry.toList.all (· == ' ') then .ok (.zero false) else readNumber c.entry

/-- Replaces the entry by its value. -/
def evaluateEntry (c : Calculator) : Calculator :=
  c.showOutcome (evaluateWith c.settings c.entry)

/-- Replaces the entry, which has to be a single number, by a function of it. -/
def applyToEntry (c : Calculator) (f : Binary64 → Binary64) : Calculator :=
  c.showOutcome (c.operand.map f)

/-! ### Keys -/

/-- What a key does. -/
def press (c : Calculator) : Key → Calculator
  | .input char => c.append char
  | .equals => c.evaluateEntry
  | .clear => c.clear
  | .backspace => c.backspace
  | .squareRoot => c.applyToEntry .sqrt
  | .square => c.applyToEntry fun x => x * x

/-- Presses the keys that the characters of a text stand for. -/
def type (c : Calculator) (text : String) : Calculator :=
  (text.toList.filterMap Key.ofChar?).foldl press c

/-- Typing is done character by character, so a text may be typed in parts. -/
theorem type_append (c : Calculator) (first second : String) :
    c.type (first ++ second) = (c.type first).type second := by
  unfold type
  rw [String.toList_append, List.filterMap_append, List.foldl_append]

/-! ### The screen -/

/-- Characters that fit on the screen. -/
def screenWidth : Nat := 24

/-- The display on the screen, at the right edge; a longer one is shown whole. -/
def screen (c : Calculator) : String :=
  "[" ++ String.ofList (c.display.toList.leftpad screenWidth ' ') ++ "]"

end Calculator

end DeskCalculator
