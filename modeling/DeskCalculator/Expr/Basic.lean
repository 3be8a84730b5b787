import DeskCalculator.Binary64.Arithmetic
import DeskCalculator.Decimal.Basic

/-!
# Expressions and their values

An expression is built from decimals by negation and the four operations.  Groups
leave no trace in it: they have done their work when the tree is built.  Its value
is computed from the leaves up, each operation rounding once.
-/

namespace DeskCalculator

/-- The four operations that stand between two operands. -/
inductive Operator where
  | add
  | sub
  | mul
  | div
  deriving DecidableEq, Repr

namespace Operator

/-- The operators of a sum. -/
def additive? : Char → Option Operator
  | '+' => some add
  | '-' => some sub
  | _ => none

/-- The operators of a product, which bind more tightly. -/
def multiplicative? : Char → Option Operator
  | '*' => some mul
  | '/' => some div
  | _ => none

theorem additive?_cases {char : Char} {operator : Operator}
    (h : additive? char = some operator) :
    (char = '+' ∧ operator = add) ∨ (char = '-' ∧ operator = sub) := by
  unfold additive? at h
  split at h
  · exact .inl ⟨rfl, (Option.some.inj h).symm⟩
  · exact .inr ⟨rfl, (Option.some.inj h).symm⟩
  · cases h

theorem multiplicative?_cases {char : Char} {operator : Operator}
    (h : multiplicative? char = some operator) :
    (char = '*' ∧ operator = mul) ∨ (char = '/' ∧ operator = div) := by
  unfold multiplicative? at h
  split at h
  · exact .inl ⟨rfl, (Option.some.inj h).symm⟩
  · exact .inr ⟨rfl, (Option.some.inj h).symm⟩
  · cases h

def apply : Operator → Binary64 → Binary64 → Binary64
  | add, x, y => x + y
  | sub, x, y => x - y
  | mul, x, y => x * y
  | div, x, y => x / y

end Operator

/-- An arithmetic expression. -/
inductive Expr where
  | number (decimal : Decimal)
  | negated (operand : Expr)
  | binary (operator : Operator) (left right : Expr)
  deriving DecidableEq, Repr

namespace Expr

/-- The value of an expression in binary arithmetic. -/
def value : Expr → Binary64
  | number decimal => decimal.value
  | negated operand => -operand.value
  | binary operator left right => operator.apply left.value right.value

/-- A chain of signs negates its operand or leaves it alone. -/
def negateIf (negative : Bool) (operand : Expr) : Expr :=
  if negative then negated operand else operand

theorem value_negateIf (negative : Bool) (operand : Expr) :
    (negateIf negative operand).value = operand.value.negateIf negative := by
  cases negative <;> rfl

end Expr

end DeskCalculator
