import DeskCalculator.SyntaxError

/-!
# A cursor by index

A cursor can also keep the whole text and the index of the character in view.  Then nothing of
the text is copied when the cursor moves, passing a run is a loop over single characters, and
what has been passed is cut out of the text afterwards, between the index before and the
index behind.

Cutting is the one thing here that can fail: `slice?` has no answer for bounds that are out of
order or beyond the text.
-/

namespace DeskCalculator

/-- A text, and the index of the character in view. -/
structure IndexCursor where
  chars : Array Char
  position : Nat
  deriving DecidableEq, Repr

namespace IndexCursor

/-- The cursor before the first character. -/
def ofText (text : String) : IndexCursor := ⟨text.toList.toArray, 0⟩

/-- The character in view, if the text goes on. -/
def current (c : IndexCursor) : Option Char := c.chars[c.position]?

def atEnd (c : IndexCursor) : Bool := c.chars.size ≤ c.position

/-- Passes one character; at the end, stays. -/
def advance (c : IndexCursor) : IndexCursor :=
  if c.atEnd then c else { c with position := c.position + 1 }

/-- How many characters are left. -/
def left (c : IndexCursor) : Nat := c.chars.size - c.position

theorem position_lt_size {c : IndexCursor} {char : Char} (h : c.current = some char) :
    c.position < c.chars.size :=
  (Array.getElem?_eq_some_iff.mp h).1

theorem advance_of_current {c : IndexCursor} {char : Char} (h : c.current = some char) :
    c.advance = ⟨c.chars, c.position + 1⟩ := by
  apply if_neg
  simpa [atEnd] using position_lt_size h

theorem left_advance_lt {c : IndexCursor} {char : Char} (h : c.current = some char) :
    c.advance.left < c.left := by
  rw [advance_of_current h]
  exact Nat.sub_succ_lt_self _ _ (position_lt_size h)

/-! ### Loops -/

/-- Passes spaces (U+0020 and no other blank) one by one. -/
def skipSpaces (c : IndexCursor) : IndexCursor :=
  if _ : c.current = some ' ' then c.advance.skipSpaces else c
termination_by c.left
decreasing_by exact left_advance_lt ‹_›

/-- Passes characters one by one as long as they satisfy the test. -/
def passWhile (test : Char → Bool) (c : IndexCursor) : IndexCursor :=
  match _ : c.current with
  | none => c
  | some char => if test char then c.advance.passWhile test else c
termination_by c.left
decreasing_by exact left_advance_lt ‹_›

/-! ### Runs and symbols -/

/-- The characters of a text from one index up to another, if there are such. -/
def slice? (chars : Array Char) (start stop : Nat) : Option (List Char) :=
  if start ≤ stop ∧ stop ≤ chars.size then some (chars.extract start stop).toList else none

/-- Passes the longest run of characters that satisfy the test, and cuts it out of the text. -/
def takeWhile? (test : Char → Bool) (c : IndexCursor) : Option (List Char × IndexCursor) :=
  let next := c.passWhile test
  (slice? next.chars c.position next.position).map fun run => (run, next)

/-- Passes spaces, and the symbol if it follows them; tells whether it did.  The spaces
    are passed in either case. -/
def eat (symbol : Char) (c : IndexCursor) : Bool × IndexCursor :=
  let here := c.skipSpaces
  if here.current = some symbol then (true, here.advance) else (false, here)

/-- The error of a text that cannot go on as it does here. -/
def errorHere (c : IndexCursor) : SyntaxError :=
  match c.current with
  | some char => .unexpectedChar char c.position
  | none => .unexpectedEnd c.position

end IndexCursor

end DeskCalculator
