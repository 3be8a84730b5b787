import DeskCalculator.SyntaxError

/-!
# A cursor in a text

Reading goes from left to right over the characters of a text, with one
character in view and none ever taken back.  A cursor is the count of characters
behind it and the list of those ahead.

A step that has to move the cursor on returns a `Reading`, which carries the
proof that fewer characters are left.  This is what makes the grammar's recursion
end.
-/

namespace DeskCalculator

/-- A place in a text: the characters ahead, and how many lie behind. -/
structure Cursor where
  position : Nat
  rest : List Char
  deriving DecidableEq, Repr

/-- What was read, and the cursor behind it, with fewer characters left than the
    bound. -/
structure Reading (α : Type) (bound : Nat) where
  value : α
  next : Cursor
  shorter : next.rest.length < bound

/-- What is read behind another reading is read behind its start. -/
theorem Reading.shorter_of_next {α β : Type} {bound : Nat} (first : Reading α bound)
    (second : Reading β first.next.rest.length) : second.next.rest.length < bound :=
  Nat.lt_trans second.shorter first.shorter

namespace Cursor

/-- The cursor before the first character. -/
def ofList (text : List Char) : Cursor := ⟨0, text⟩

def ofText (text : String) : Cursor := ofList text.toList

/-- The character in view, if the text goes on. -/
def current (c : Cursor) : Option Char := c.rest.head?

def atEnd (c : Cursor) : Bool := c.rest.isEmpty

/-- Passes one character; at the end, stays. -/
def advance (c : Cursor) : Cursor :=
  match c.rest with
  | [] => c
  | _ :: rest => ⟨c.position + 1, rest⟩

/-- Passes the longest run of characters that satisfy the test, and returns it. -/
def takeWhile (test : Char → Bool) (c : Cursor) : List Char × Cursor :=
  let run := c.rest.takeWhile test
  (run, ⟨c.position + run.length, c.rest.dropWhile test⟩)

/-- Passes spaces (U+0020 and no other blank). -/
def skipSpaces (c : Cursor) : Cursor := (c.takeWhile (· == ' ')).2

/-- The error of a text that cannot go on as it does here. -/
def errorHere (c : Cursor) : SyntaxError :=
  match c.current with
  | some char => .unexpectedChar char c.position
  | none => .unexpectedEnd c.position

theorem length_rest_advance (c : Cursor) : c.advance.rest.length = c.rest.length - 1 := by
  unfold advance
  split
  · next h => simp [h]
  · next h => simp [h]

theorem length_rest_skipSpaces_le (c : Cursor) :
    c.skipSpaces.rest.length ≤ c.rest.length :=
  (List.dropWhile_suffix _).length_le

/-- Has read a value that ends at the cursor, and passes the spaces that follow it. -/
def complete {α : Type} {bound : Nat} (c : Cursor) (value : α)
    (shorter : c.rest.length < bound) : Reading α bound :=
  ⟨value, c.skipSpaces, Nat.lt_of_le_of_lt c.length_rest_skipSpaces_le shorter⟩

/-! ### One symbol after spaces -/

/-- Passes the character in view if the table knows it, and returns the table's entry. -/
def acceptHere? {α : Type} {bound : Nat} (table : Char → Option α) :
    (c : Cursor) → c.rest.length ≤ bound → Option (Reading α bound)
  | ⟨_, []⟩, _ => none
  | ⟨position, char :: rest⟩, shorter =>
      match table char with
      | none => none
      | some entry => some ⟨entry, ⟨position + 1, rest⟩, shorter⟩

/-- Passes spaces and then one character that the table knows, if one stands there,
    and returns the table's entry for it. -/
def accept? {α : Type} (table : Char → Option α) (c : Cursor) :
    Option (Reading α c.rest.length) :=
  acceptHere? table c.skipSpaces c.length_rest_skipSpaces_le

/-- The table of a single symbol. -/
def only (symbol char : Char) : Option Unit := if char = symbol then some () else none

/-- Passes spaces, and the symbol if it follows them; tells whether it did.  The spaces
    are passed in either case. -/
def eat (symbol : Char) (c : Cursor) : Bool × Cursor :=
  match c.accept? (only symbol) with
  | some reading => (true, reading.next)
  | none => (false, c.skipSpaces)

theorem eat_eq (symbol : Char) (c : Cursor) :
    c.eat symbol = if c.skipSpaces.current = some symbol then (true, c.skipSpaces.advance)
      else (false, c.skipSpaces) := by
  unfold eat accept?
  generalize c.length_rest_skipSpaces_le = hlength
  revert hlength
  generalize c.skipSpaces = here
  intro hlength
  obtain ⟨position, rest⟩ := here
  cases rest with
  | nil => rfl
  | cons char rest =>
    by_cases hchar : char = symbol <;> simp [acceptHere?, only, current, advance, hchar]

/-! ### The end of a text -/

/-- Nothing but spaces may be left. -/
def finish (c : Cursor) : Except SyntaxError Unit :=
  if c.skipSpaces.atEnd then .ok () else .error c.skipSpaces.errorHere

end Cursor

end DeskCalculator
