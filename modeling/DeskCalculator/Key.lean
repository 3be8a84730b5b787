/-!
# The keys of the calculator

Each key can be typed as one or more characters of a keyboard.  Characters that
stand for no key are ignored, line breaks among them.
-/

namespace DeskCalculator

/-- A key of the calculator. -/
inductive Key where
  /-- Puts a character at the end of the entry. -/
  | input (char : Char)
  /-- Replaces the entry by its value. -/
  | equals
  /-- Empties the entry. -/
  | clear
  /-- Takes back the last character of the entry. -/
  | backspace
  /-- Replaces the entry, a single number, by its square root. -/
  | squareRoot
  /-- Replaces the entry, a single number, by its square. -/
  | square
  deriving DecidableEq, Repr

namespace Key

/-- The characters that are typed into the entry as they are. -/
def isInputChar (c : Char) : Bool :=
  c.isDigit || ['.', '+', '-', '*', '/', '(', ')', ' '].contains c

/-- The key that a character stands for.  The entry is cleared with `c`, `C` or escape, and
    the last character taken back with `<`, backspace or delete. -/
def ofChar? (c : Char) : Option Key :=
  if isInputChar c then some (input c)
  else
    match c with
    | '=' => some equals
    | 'c' => some clear
    | 'C' => some clear
    | '\x1b' => some clear
    | '<' => some backspace
    | '\x08' => some backspace
    | '\x7f' => some backspace
    | '√' => some squareRoot
    | 'r' => some squareRoot
    | '²' => some square
    | 's' => some square
    | _ => none

end Key

end DeskCalculator
