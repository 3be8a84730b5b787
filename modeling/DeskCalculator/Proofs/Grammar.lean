import DeskCalculator.Expr.Basic

/-!
# The grammar

The language of the calculator, without a cursor and without loops:

    text       = expression blank*
    expression = term (blank* ('+' | '-') term)*
    term       = factor (blank* ('*' | '/') factor)*
    factor     = (blank* ('+' | '-'))* primary
    primary    = blank* '(' expression blank* ')'  |  blank* digit+ ('.' digit*)?

A blank is a space.  `Derives` relates a text to the value that the grammar gives it,
with sums and products grouped from the left, and counts how deep groups are nested in
the derivation.
-/

namespace DeskCalculator

/-- The levels of the grammar. -/
inductive Level where
  | expression
  | term
  | factor
  | primary
  deriving DecidableEq, Repr

/-- A run of spaces. -/
def spaces (count : Nat) : List Char := List.replicate count ' '

@[simp] theorem spaces_zero : spaces 0 = [] := rfl

theorem spaces_add (m n : Nat) : spaces (m + n) = spaces m ++ spaces n :=
  List.replicate_append_replicate.symm

/-- A chain of signs, each with spaces in front, that holds so many minus signs. -/
inductive SignChain : List Char → Nat → Prop where
  | nil : SignChain [] 0
  | plus {chain : List Char} {minuses : Nat} (blanks : Nat) :
      SignChain chain minuses → SignChain (spaces blanks ++ '+' :: chain) minuses
  | minus {chain : List Char} {minuses : Nat} (blanks : Nat) :
      SignChain chain minuses → SignChain (spaces blanks ++ '-' :: chain) (minuses + 1)

/-- A text of the given level has the given value, by a derivation in which groups are
    nested exactly so deep. -/
inductive Derives : Level → Nat → List Char → Binary64 → Prop where
  | term {depth : Nat} {text : List Char} {x : Binary64} :
      Derives .term depth text x → Derives .expression depth text x
  | add {m n : Nat} {left right : List Char} {x y : Binary64} (blanks : Nat) :
      Derives .expression m left x → Derives .term n right y →
      Derives .expression (max m n) (left ++ spaces blanks ++ '+' :: right) (x + y)
  | sub {m n : Nat} {left right : List Char} {x y : Binary64} (blanks : Nat) :
      Derives .expression m left x → Derives .term n right y →
      Derives .expression (max m n) (left ++ spaces blanks ++ '-' :: right) (x - y)
  | factor {depth : Nat} {text : List Char} {x : Binary64} :
      Derives .factor depth text x → Derives .term depth text x
  | mul {m n : Nat} {left right : List Char} {x y : Binary64} (blanks : Nat) :
      Derives .term m left x → Derives .factor n right y →
      Derives .term (max m n) (left ++ spaces blanks ++ '*' :: right) (x * y)
  | div {m n : Nat} {left right : List Char} {x y : Binary64} (blanks : Nat) :
      Derives .term m left x → Derives .factor n right y →
      Derives .term (max m n) (left ++ spaces blanks ++ '/' :: right) (x / y)
  | signs {depth minuses : Nat} {chain text : List Char} {x : Binary64} :
      SignChain chain minuses → Derives .primary depth text x →
      Derives .factor depth (chain ++ text) (if minuses % 2 = 1 then -x else x)
  | group {depth : Nat} {text : List Char} {x : Binary64} (before after : Nat) :
      Derives .expression depth text x →
      Derives .primary (depth + 1) (spaces before ++ '(' :: text ++ spaces after ++ [')']) x
  | whole {digits : List Char} (blanks : Nat) :
      digits ≠ [] → (∀ char ∈ digits, char.isDigit = true) →
      Derives .primary 0 (spaces blanks ++ digits)
        (Decimal.value ⟨Nat.ofDigitChars 10 digits 0, 0⟩)
  | point {digits fraction : List Char} (blanks : Nat) :
      digits ≠ [] → (∀ char ∈ digits, char.isDigit = true) →
      (∀ char ∈ fraction, char.isDigit = true) →
      Derives .primary 0 (spaces blanks ++ digits ++ '.' :: fraction)
        (Decimal.value ⟨Nat.ofDigitChars 10 (digits ++ fraction) 0, fraction.length⟩)

/-- A whole text has the given value: it is an expression with spaces behind it. -/
def DerivesText (depth : Nat) (text : List Char) (x : Binary64) : Prop :=
  ∃ expression blanks, text = expression ++ spaces blanks ∧ Derives .expression depth expression x

end DeskCalculator
