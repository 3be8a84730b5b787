import DeskCalculator.Decimal.Reader
import DeskCalculator.Expr.Basic

/-!
# Reading expressions

The grammar has four levels, each a function of the cursor:

* an *expression* is a sum of terms, grouped from the left;
* a *term* is a product of factors, grouped from the left;
* a *factor* is a chain of signs, however long, before one primary;
* a *primary* is a group in parentheses or a decimal.

Spaces may stand before every symbol and every number.  The functions call one another in a
circle, and every turn of it has read something, so the number of characters left
falls; between two levels without a step of the cursor the level falls.

A `Dialect` says whether a group has to be closed, and how many groups may be open at
once.  A group that need not be closed ends where it cannot go on: the end of the text, as
it turns out, because whatever else stops it stops the whole expression too.
-/

namespace DeskCalculator

/-- What a reader of expressions insists on. -/
structure Dialect where
  /-- Whether a group without its closing parenthesis is an error. -/
  requireClosing : Bool
  /-- How many groups may be open inside one another; `none` is without limit. -/
  groupLimit : Option Nat
  deriving DecidableEq, Repr

/-- Whether one more group may be opened inside `depth` open ones. -/
def Dialect.allowsGroup (d : Dialect) (depth : Nat) : Bool :=
  match d.groupLimit with
  | none => true
  | some limit => depth < limit

namespace Expr

/-! ### Chains of signs -/

/-- Reads signs and the spaces around them, and tells whether the minus signs are odd in
    number, starting from `negative`. -/
def signs (negative : Bool) (c : Cursor) : Bool × Cursor :=
  match c.accept? sign? with
  | some sign => signs (negative ^^ sign.value) sign.next
  | none => (negative, c.skipSpaces)
termination_by c.rest.length
decreasing_by exact sign.shorter

theorem length_rest_signs_le (negative : Bool) (c : Cursor) :
    (signs negative c).2.rest.length ≤ c.rest.length := by
  fun_induction signs negative c with
  | case1 negative c sign _ ih => exact Nat.le_of_lt (Nat.lt_of_le_of_lt ih sign.shorter)
  | case2 negative c => exact c.length_rest_skipSpaces_le

/-! ### The four levels -/

mutual

/-- Reads a sum: a term, and further terms as long as additive operators follow. -/
def expression (d : Dialect) (depth : Nat) (c : Cursor) :
    Except SyntaxError (Reading Expr c.rest.length) :=
  match term d depth c with
  | .error e => .error e
  | .ok first => sum d depth first.value first.next first.shorter
termination_by (c.rest.length, 4)
decreasing_by
  · exact Prod.Lex.right _ (by decide)
  · exact Prod.Lex.left _ _ first.shorter

/-- Goes on with a sum whose terms so far are `left`. -/
def sum {bound : Nat} (d : Dialect) (depth : Nat) (left : Expr) (c : Cursor)
    (shorter : c.rest.length < bound) : Except SyntaxError (Reading Expr bound) :=
  match c.accept? Operator.additive? with
  | none => .ok (c.complete left shorter)
  | some operator =>
      match term d depth operator.next with
      | .error e => .error e
      | .ok right =>
          sum d depth (.binary operator.value left right.value) right.next
            (Nat.lt_trans (operator.shorter_of_next right) shorter)
termination_by (c.rest.length, 3)
decreasing_by
  · exact Prod.Lex.left _ _ operator.shorter
  · exact Prod.Lex.left _ _ (operator.shorter_of_next right)

/-- Reads a product: a factor, and further factors as long as multiplicative operators
    follow. -/
def term (d : Dialect) (depth : Nat) (c : Cursor) :
    Except SyntaxError (Reading Expr c.rest.length) :=
  match factor d depth c with
  | .error e => .error e
  | .ok first => product d depth first.value first.next first.shorter
termination_by (c.rest.length, 2)
decreasing_by
  · exact Prod.Lex.right _ (by decide)
  · exact Prod.Lex.left _ _ first.shorter

/-- Goes on with a product whose factors so far are `left`. -/
def product {bound : Nat} (d : Dialect) (depth : Nat) (left : Expr) (c : Cursor)
    (shorter : c.rest.length < bound) : Except SyntaxError (Reading Expr bound) :=
  match c.accept? Operator.multiplicative? with
  | none => .ok (c.complete left shorter)
  | some operator =>
      match factor d depth operator.next with
      | .error e => .error e
      | .ok right =>
          product d depth (.binary operator.value left right.value) right.next
            (Nat.lt_trans (operator.shorter_of_next right) shorter)
termination_by (c.rest.length, 1)
decreasing_by
  · exact Prod.Lex.left _ _ operator.shorter
  · exact Prod.Lex.left _ _ (operator.shorter_of_next right)

/-- Reads a chain of signs and its operand. -/
def factor (d : Dialect) (depth : Nat) (c : Cursor) :
    Except SyntaxError (Reading Expr c.rest.length) :=
  match primary d depth (signs false c).2 with
  | .error e => .error e
  | .ok operand =>
      .ok ⟨negateIf (signs false c).1 operand.value, operand.next,
        Nat.lt_of_lt_of_le operand.shorter (length_rest_signs_le false c)⟩
termination_by (c.rest.length, 1)
decreasing_by exact Prod.Lex.right' _ (length_rest_signs_le false c) (by decide)

/-- Reads a group or a decimal.  The limit is checked before the inside of a group is
    looked at, and an error of the limit lies at the opening parenthesis. -/
def primary (d : Dialect) (depth : Nat) (c : Cursor) :
    Except SyntaxError (Reading Expr c.rest.length) :=
  match c.accept? (Cursor.only '(') with
  | some opening =>
      if d.allowsGroup depth then
        match expression d (depth + 1) opening.next with
        | .error e => .error e
        | .ok inside =>
            match inside.next.accept? (Cursor.only ')') with
            | some closing =>
                .ok ⟨inside.value, closing.next,
                  Nat.lt_trans closing.shorter (opening.shorter_of_next inside)⟩
            | none =>
                if d.requireClosing then .error inside.next.skipSpaces.errorHere
                else .ok (inside.next.complete inside.value (opening.shorter_of_next inside))
      else .error (.nestedTooDeep c.skipSpaces.position)
  | none =>
      match c.skipSpaces.decimal with
      | .error e => .error e
      | .ok decimal =>
          .ok ⟨.number decimal.value, decimal.next,
            Nat.lt_of_lt_of_le decimal.shorter c.length_rest_skipSpaces_le⟩
termination_by (c.rest.length, 0)
decreasing_by exact Prod.Lex.left _ _ opening.shorter

end

/-! ### A whole text -/

/-- Reads a text that is one expression, with spaces around it. -/
def read (d : Dialect) (text : String) : Except SyntaxError Expr :=
  match expression d 0 (Cursor.ofText text) with
  | .error e => .error e
  | .ok reading =>
      match reading.next.finish with
      | .error e => .error e
      | .ok () => .ok reading.value

end Expr

end DeskCalculator
