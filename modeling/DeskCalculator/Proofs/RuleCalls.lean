import DeskCalculator.Expr.Reader
import Mathlib.Logic.Relation

/-!
# Which rule calls which

The rules of the grammar call one another with a depth and a cursor.  `Expr.Calls` lists every
call that one rule makes in the course of another.  Only the inside of a group is read one
deeper, and only if one more group is allowed there, so no call of a reading ever
gets a depth beyond the limit (`Expr.depth_le_of_readingCalls`).

The list is complete for what a depth is used for: two dialects that allow the same at the
depth of every call on the list read alike (`Expr.read_congr_of_calls`).
-/

namespace DeskCalculator

namespace Expr

/-- A call of one of the rules. -/
inductive Call where
  | expression (depth : Nat) (c : Cursor)
  | sum (depth : Nat) (left : Expr) (c : Cursor)
  | term (depth : Nat) (c : Cursor)
  | product (depth : Nat) (left : Expr) (c : Cursor)
  | factor (depth : Nat) (c : Cursor)
  | primary (depth : Nat) (c : Cursor)

/-- How many groups are said to be open around what a call reads. -/
def Call.depth : Call → Nat
  | expression depth _ => depth
  | sum depth _ _ => depth
  | term depth _ => depth
  | product depth _ _ => depth
  | factor depth _ => depth
  | primary depth _ => depth

/-- In the course of the first call the second is made. -/
inductive Calls (d : Dialect) : Call → Call → Prop where
  | firstTerm (depth : Nat) (c : Cursor) : Calls d (.expression depth c) (.term depth c)
  | terms {depth : Nat} {c : Cursor} {first : Reading Expr c.rest.length} :
      term d depth c = .ok first →
      Calls d (.expression depth c) (.sum depth first.value first.next)
  | nextTerm {depth : Nat} {c : Cursor} {operator : Reading Operator c.rest.length}
      (left : Expr) :
      c.accept? Operator.additive? = some operator →
      Calls d (.sum depth left c) (.term depth operator.next)
  | moreTerms {depth : Nat} {c : Cursor} {operator : Reading Operator c.rest.length}
      {right : Reading Expr operator.next.rest.length} (left : Expr) :
      c.accept? Operator.additive? = some operator →
      term d depth operator.next = .ok right →
      Calls d (.sum depth left c)
        (.sum depth (.binary operator.value left right.value) right.next)
  | firstFactor (depth : Nat) (c : Cursor) : Calls d (.term depth c) (.factor depth c)
  | factors {depth : Nat} {c : Cursor} {first : Reading Expr c.rest.length} :
      factor d depth c = .ok first →
      Calls d (.term depth c) (.product depth first.value first.next)
  | nextFactor {depth : Nat} {c : Cursor} {operator : Reading Operator c.rest.length}
      (left : Expr) :
      c.accept? Operator.multiplicative? = some operator →
      Calls d (.product depth left c) (.factor depth operator.next)
  | moreFactors {depth : Nat} {c : Cursor} {operator : Reading Operator c.rest.length}
      {right : Reading Expr operator.next.rest.length} (left : Expr) :
      c.accept? Operator.multiplicative? = some operator →
      factor d depth operator.next = .ok right →
      Calls d (.product depth left c)
        (.product depth (.binary operator.value left right.value) right.next)
  | operand (depth : Nat) (c : Cursor) :
      Calls d (.factor depth c) (.primary depth (signs false c).2)
  | inside {depth : Nat} {c : Cursor} {opening : Reading Unit c.rest.length} :
      c.accept? (Cursor.only '(') = some opening → d.allowsGroup depth = true →
      Calls d (.primary depth c) (.expression (depth + 1) opening.next)

/-- The call is made when the text is read. -/
def ReadingCalls (d : Dialect) (text : String) (call : Call) : Prop :=
  Relation.ReflTransGen (Calls d) (.expression 0 (Cursor.ofText text)) call

variable {d d' : Dialect}

/-! ### The depth of a call -/

/-- A call goes one deeper only where one more group is allowed. -/
theorem Calls.depth_cases {call callee : Call} (h : Calls d call callee) :
    callee.depth = call.depth ∨
      callee.depth = call.depth + 1 ∧ d.allowsGroup call.depth = true := by
  cases h with
  | inside haccept hallows => exact .inr ⟨rfl, hallows⟩
  | _ => exact .inl rfl

theorem depth_le_of_readingCalls {limit : Nat} (hlimit : d.groupLimit = some limit)
    {text : String} {call : Call} (h : ReadingCalls d text call) : call.depth ≤ limit := by
  unfold ReadingCalls at h
  induction h with
  | refl => exact Nat.zero_le limit
  | tail hcalls hlast ih =>
    rcases hlast.depth_cases with hsame | ⟨hdeeper, hallows⟩
    · rw [hsame]
      exact ih
    · simp only [Dialect.allowsGroup, hlimit, decide_eq_true_eq] at hallows
      rw [hdeeper]
      exact hallows

/-! ### What a reading depends on -/

/-- The dialects allow the same in every call that is made in the course of this one. -/
def AllowAlike (d d' : Dialect) (call : Call) : Prop :=
  ∀ callee, Relation.ReflTransGen (Calls d) call callee →
    d.allowsGroup callee.depth = d'.allowsGroup callee.depth

theorem AllowAlike.of_calls {call callee : Call} (h : AllowAlike d d' call)
    (hcalls : Calls d call callee) : AllowAlike d d' callee :=
  fun last hlast => h last (.head hcalls hlast)

theorem primary_congr_of_inside (hclosing : d.requireClosing = d'.requireClosing) {depth : Nat}
    {c : Cursor} {opening : Reading Unit c.rest.length}
    (haccept : c.accept? (Cursor.only '(') = some opening) (hallows : d.allowsGroup depth = true)
    (hinside : AllowAlike d d' (.expression (depth + 1) opening.next) →
      expression d (depth + 1) opening.next = expression d' (depth + 1) opening.next)
    (h : AllowAlike d d' (.primary depth c)) : primary d depth c = primary d' depth c := by
  have hsame : d.allowsGroup depth = d'.allowsGroup depth := h (.primary depth c) .refl
  have hread := hinside (h.of_calls (.inside haccept hallows))
  rw [primary, primary, haccept]
  simp only [← hsame, hallows, ← hread, hclosing]

theorem reader_congr_of_calls (hclosing : d.requireClosing = d'.requireClosing) :
    (∀ depth c, AllowAlike d d' (.expression depth c) →
      expression d depth c = expression d' depth c) ∧
    (∀ bound depth left c (shorter : c.rest.length < bound), AllowAlike d d' (.sum depth left c) →
      sum d depth left c shorter = sum d' depth left c shorter) ∧
    (∀ depth c, AllowAlike d d' (.term depth c) → term d depth c = term d' depth c) ∧
    (∀ bound depth left c (shorter : c.rest.length < bound),
      AllowAlike d d' (.product depth left c) →
      product d depth left c shorter = product d' depth left c shorter) ∧
    (∀ depth c, AllowAlike d d' (.factor depth c) → factor d depth c = factor d' depth c) ∧
    ∀ depth c, AllowAlike d d' (.primary depth c) → primary d depth c = primary d' depth c := by
  apply expression.mutual_induct d
  case case1 =>
    intro depth c e hterm ih h
    rw [expression, expression, ← ih (h.of_calls (.firstTerm depth c)), hterm]
  case case2 =>
    intro depth c first hterm ihterm ihsum h
    rw [expression, expression, ← ihterm (h.of_calls (.firstTerm depth c)), hterm]
    exact ihsum (h.of_calls (.terms hterm))
  case case3 =>
    intro bound depth left c shorter haccept h
    rw [sum, sum, haccept]
  case case4 =>
    intro bound depth left c shorter operator haccept e hterm ih h
    rw [sum, sum, haccept]
    simp only [← ih (h.of_calls (.nextTerm left haccept)), hterm]
  case case5 =>
    intro bound depth left c shorter operator haccept right hterm ihterm ihsum h
    rw [sum, sum, haccept]
    simp only [← ihterm (h.of_calls (.nextTerm left haccept)), hterm]
    exact ihsum (h.of_calls (.moreTerms left haccept hterm))
  case case6 =>
    intro depth c e hfactor ih h
    rw [term, term, ← ih (h.of_calls (.firstFactor depth c)), hfactor]
  case case7 =>
    intro depth c first hfactor ihfactor ihproduct h
    rw [term, term, ← ihfactor (h.of_calls (.firstFactor depth c)), hfactor]
    exact ihproduct (h.of_calls (.factors hfactor))
  case case8 =>
    intro bound depth left c shorter haccept h
    rw [product, product, haccept]
  case case9 =>
    intro bound depth left c shorter operator haccept e hfactor ih h
    rw [product, product, haccept]
    simp only [← ih (h.of_calls (.nextFactor left haccept)), hfactor]
  case case10 =>
    intro bound depth left c shorter operator haccept right hfactor ihfactor ihproduct h
    rw [product, product, haccept]
    simp only [← ihfactor (h.of_calls (.nextFactor left haccept)), hfactor]
    exact ihproduct (h.of_calls (.moreFactors left haccept hfactor))
  case case11 =>
    intro depth c e hprimary ih h
    rw [factor, factor, ← ih (h.of_calls (.operand depth c))]
  case case12 =>
    intro depth c operand hprimary ih h
    rw [factor, factor, ← ih (h.of_calls (.operand depth c))]
  case case13 =>
    intro depth c opening haccept hallows e hinside ih
    exact primary_congr_of_inside hclosing haccept hallows ih
  case case14 =>
    intro depth c opening haccept hallows inside hinside closing hclosed ih
    exact primary_congr_of_inside hclosing haccept hallows ih
  case case15 =>
    intro depth c opening haccept hallows inside hinside hclosed hstrict ih
    exact primary_congr_of_inside hclosing haccept hallows ih
  case case16 =>
    intro depth c opening haccept hallows inside hinside hclosed hstrict ih
    exact primary_congr_of_inside hclosing haccept hallows ih
  case case17 =>
    intro depth c opening haccept hallows h
    have hsame : d.allowsGroup depth = d'.allowsGroup depth := h (.primary depth c) .refl
    rw [primary, primary, haccept]
    simp only [← hsame, hallows]
    rfl
  case case18 =>
    intro depth c haccept e hdecimal h
    rw [primary, primary, haccept]
  case case19 =>
    intro depth c haccept decimal hdecimal h
    rw [primary, primary, haccept]

theorem read_congr_of_calls (hclosing : d.requireClosing = d'.requireClosing) {text : String}
    (h : ∀ call, ReadingCalls d text call →
      d.allowsGroup call.depth = d'.allowsGroup call.depth) : read d text = read d' text := by
  rw [read, read, (reader_congr_of_calls hclosing).1 0 (Cursor.ofText text) h]

end Expr

end DeskCalculator
