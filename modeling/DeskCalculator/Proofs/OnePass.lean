import DeskCalculator.Expr.Reader

/-!
# Reading in one pass

The grammar's functions call one another and keep what they have read in their
arguments.  The same reading can be done in a single pass from left to right by a
machine with a stack: it looks at each character once, and keeps for every open
group the operands and signs that wait there.

A `Scan` is the machine between two characters.  It does not know where in the text
it is.  Places enter only with an error, so what a prefix of a text leads to can be
compared across texts.
-/

namespace DeskCalculator

/-! ### What waits for an operand -/

/-- What stands in front of an operand inside its group. -/
structure Pending where
  /-- The terms so far, and the operator that joins the next one. -/
  sum : Option (Expr × Operator)
  /-- The factors so far of the last term, and the operator that joins the next one. -/
  product : Option (Expr × Operator)
  /-- Whether the signs in front of the operand negate it. -/
  negative : Bool
  deriving DecidableEq, Repr

/-- An operand joined to what waits for it. -/
def Expr.join (operand : Expr) : Option (Expr × Operator) → Expr
  | none => operand
  | some (left, operator) => .binary operator left operand

@[simp] theorem Expr.join_none (operand : Expr) : operand.join none = operand := rfl

namespace Pending

/-- Nothing waits where a group, or a text, starts. -/
def start : Pending := ⟨none, none, false⟩

/-- One more sign. -/
def sign (p : Pending) (negative : Bool) : Pending :=
  { p with negative := p.negative ^^ negative }

/-- The last term of the group once its operand is there. -/
def term (p : Pending) (operand : Expr) : Expr :=
  (Expr.negateIf p.negative operand).join p.product

end Pending

/-! ### The machine -/

/-- How far a pass over a text has come. -/
inductive Scan where
  /-- An operand has to follow. -/
  | operand (groups : List Pending) (pending : Pending)
  /-- Within a number, whose characters so far are given. -/
  | number (groups : List Pending) (pending : Pending) (run : List Char)
  /-- Behind an operand: the sum it belongs to, and the product up to it. -/
  | operator (groups : List Pending) (sum : Option (Expr × Operator)) (product : Expr)
  deriving DecidableEq, Repr

namespace Scan

/-- Before the first character. -/
def start : Scan := operand [] .start

/-- The groups that are open. -/
def groups : Scan → List Pending
  | operand groups _ => groups
  | number groups _ _ => groups
  | operator groups _ _ => groups

/-- Closes the innermost group on the value it has. -/
def closeGroup (value : Expr) : List Pending → Option Scan
  | [] => none
  | outer :: groups => some (operator groups outer.sum (outer.term value))

/-- Passes a character where an operand has to follow. -/
def nextOfOperand (d : Dialect) (groups : List Pending) (pending : Pending) (char : Char) :
    Option Scan :=
  if char = ' ' then some (operand groups pending)
  else
    match sign? char with
    | some negative => some (operand groups (pending.sign negative))
    | none =>
        if char = '(' then
          if d.allowsGroup groups.length then some (operand (pending :: groups) .start) else none
        else if char.isDigit then some (number groups pending [char])
        else none

/-- Passes a character behind an operand. -/
def nextOfOperator (groups : List Pending) (sum : Option (Expr × Operator)) (product : Expr)
    (char : Char) : Option Scan :=
  if char = ' ' then some (operator groups sum product)
  else
    match Operator.additive? char with
    | some op => some (operand groups ⟨some (product.join sum, op), none, false⟩)
    | none =>
        match Operator.multiplicative? char with
        | some op => some (operand groups ⟨sum, some (product, op), false⟩)
        | none => if char = ')' then closeGroup (product.join sum) groups else none

/-- Passes one character, if the text can go on with it.  A number ends at the first
    character that is not part of it. -/
def next? (d : Dialect) (s : Scan) (char : Char) : Option Scan :=
  match s with
  | operand groups pending => nextOfOperand d groups pending char
  | number groups pending run =>
      if Decimal.isNumeralChar char then some (number groups pending (run ++ [char]))
      else
        (Decimal.ofChars? run).bind fun decimal =>
          nextOfOperator groups pending.sum (pending.term (.number decimal)) char
  | operator groups sum product => nextOfOperator groups sum product char

/-- Passes all characters, if the text can start with them. -/
def feed (d : Dialect) (s : Scan) (text : List Char) : Option Scan := text.foldlM (next? d) s

/-! ### Errors and values -/

/-- The error at a character that the text cannot go on with. -/
def reject (s : Scan) (position : Nat) (char : Char) : SyntaxError :=
  match s with
  | operand _ _ => if char = '(' then .nestedTooDeep position else .unexpectedChar char position
  | number _ _ run =>
      match Decimal.ofChars? run with
      | none => .malformedNumber (String.ofList run) (position - run.length)
      | some _ => .unexpectedChar char position
  | operator _ _ _ => .unexpectedChar char position

/-- The value of a text that ends inside groups: each of them is closed. -/
def closeAll (value : Expr) (groups : List Pending) : Expr :=
  groups.foldl (fun inside outer => (outer.term inside).join outer.sum) value

/-- The value of a text that ends behind an operand. -/
def finishOperator (d : Dialect) (groups : List Pending) (value : Expr) (position : Nat) :
    Except SyntaxError Expr :=
  if d.requireClosing && !groups.isEmpty then .error (.unexpectedEnd position)
  else .ok (closeAll value groups)

/-- The value of a text that ends here. -/
def finish (d : Dialect) (s : Scan) (position : Nat) : Except SyntaxError Expr :=
  match s with
  | operand _ _ => .error (.unexpectedEnd position)
  | number groups pending run =>
      match Decimal.ofChars? run with
      | none => .error (.malformedNumber (String.ofList run) (position - run.length))
      | some decimal =>
          finishOperator d groups ((pending.term (.number decimal)).join pending.sum) position
  | operator groups sum product => finishOperator d groups (product.join sum) position

/-- The value of what is left of a text, from the given position on. -/
def run (d : Dialect) (s : Scan) (position : Nat) : List Char → Except SyntaxError Expr
  | [] => s.finish d position
  | char :: rest =>
      match s.next? d char with
      | none => .error (s.reject position char)
      | some next => next.run d (position + 1) rest

variable {d : Dialect}

/-! ### Single characters -/

@[simp] theorem next?_operand_space (groups : List Pending) (pending : Pending) :
    (operand groups pending).next? d ' ' = some (operand groups pending) := rfl

@[simp] theorem next?_operator_space (groups : List Pending) (sum : Option (Expr × Operator))
    (product : Expr) :
    (operator groups sum product).next? d ' ' = some (operator groups sum product) := rfl

theorem next?_operand_sign {char : Char} {negative : Bool} (hsign : sign? char = some negative)
    (groups : List Pending) (pending : Pending) :
    (operand groups pending).next? d char = some (operand groups (pending.sign negative)) := by
  have hspace : char ≠ ' ' := by rintro rfl; simp [sign?] at hsign
  simp [next?, nextOfOperand, hspace, hsign]

theorem next?_operand_open {groups : List Pending}
    (hallows : d.allowsGroup groups.length = true) (pending : Pending) :
    (operand groups pending).next? d '(' = some (operand (pending :: groups) .start) := by
  simp [next?, nextOfOperand, sign?, hallows]

theorem sign?_of_isDigit {char : Char} (hdigit : char.isDigit = true) : sign? char = none := by
  unfold sign?
  split
  · simp at hdigit
  · simp at hdigit
  · rfl

theorem next?_operand_digit {char : Char} (hdigit : char.isDigit = true)
    (groups : List Pending) (pending : Pending) :
    (operand groups pending).next? d char = some (number groups pending [char]) := by
  have hspace : char ≠ ' ' := by rintro rfl; simp at hdigit
  have hopen : char ≠ '(' := by rintro rfl; simp at hdigit
  simp [next?, nextOfOperand, hspace, hopen, sign?_of_isDigit hdigit, hdigit]

theorem next?_operator_additive {char : Char} {op : Operator}
    (hop : Operator.additive? char = some op) (groups : List Pending)
    (sum : Option (Expr × Operator)) (product : Expr) :
    (operator groups sum product).next? d char
      = some (operand groups ⟨some (product.join sum, op), none, false⟩) := by
  have hspace : char ≠ ' ' := by rintro rfl; simp [Operator.additive?] at hop
  simp [next?, nextOfOperator, hspace, hop]

theorem next?_operator_multiplicative {char : Char} {op : Operator}
    (hop : Operator.multiplicative? char = some op) (groups : List Pending)
    (sum : Option (Expr × Operator)) (product : Expr) :
    (operator groups sum product).next? d char
      = some (operand groups ⟨sum, some (product, op), false⟩) := by
  have hspace : char ≠ ' ' := by rintro rfl; simp [Operator.multiplicative?] at hop
  have hsum : Operator.additive? char = none := by
    rcases Operator.multiplicative?_cases hop with ⟨rfl, -⟩ | ⟨rfl, -⟩
    · rfl
    · rfl
  simp [next?, nextOfOperator, hspace, hsum, hop]

theorem next?_operator_close (groups : List Pending) (sum : Option (Expr × Operator))
    (product : Expr) :
    (operator groups sum product).next? d ')' = closeGroup (product.join sum) groups := rfl

theorem next?_number_numeral {char : Char} (hchar : Decimal.isNumeralChar char = true)
    (groups : List Pending) (pending : Pending) (run : List Char) :
    (number groups pending run).next? d char = some (number groups pending (run ++ [char])) := by
  simp [next?, hchar]

/-! ### Passing over a text -/

@[simp] theorem feed_nil (s : Scan) : s.feed d [] = some s := rfl

theorem feed_cons (s : Scan) (char : Char) (rest : List Char) :
    s.feed d (char :: rest) = (s.next? d char).bind fun next => next.feed d rest := rfl

theorem feed_cons_eq_some_iff {s s' : Scan} {char : Char} {rest : List Char} :
    s.feed d (char :: rest) = some s' ↔
      ∃ next, s.next? d char = some next ∧ next.feed d rest = some s' := by
  rw [feed_cons, Option.bind_eq_some_iff]

theorem feed_append (s : Scan) (first second : List Char) :
    s.feed d (first ++ second) = (s.feed d first).bind fun next => next.feed d second :=
  List.foldlM_append

theorem feed_append_of_eq_some {s s' : Scan} {first : List Char} (h : s.feed d first = some s')
    (second : List Char) : s.feed d (first ++ second) = s'.feed d second := by
  rw [feed_append, h, Option.bind_some]

theorem feed_spaces {s : Scan} (hspace : s.next? d ' ' = some s) (blanks : Nat) :
    s.feed d (List.replicate blanks ' ') = some s := by
  induction blanks with
  | zero => rfl
  | succ blanks ih => rw [List.replicate_succ, feed_cons, hspace, Option.bind_some, ih]

theorem feed_number {more : List Char}
    (hmore : ∀ char ∈ more, Decimal.isNumeralChar char = true) (groups : List Pending)
    (pending : Pending) (run : List Char) :
    (number groups pending run).feed d more = some (number groups pending (run ++ more)) := by
  induction more generalizing run with
  | nil => simp
  | cons char more ih =>
    have hchar := hmore char (by simp)
    rw [feed_cons, next?_number_numeral hchar, Option.bind_some,
      ih (fun other hother => hmore other (by simp [hother])), List.append_assoc,
      List.singleton_append]

theorem feed_numeral {run : List Char} (hhead : run.head?.any Char.isDigit = true)
    (hrun : ∀ char ∈ run, Decimal.isNumeralChar char = true) (groups : List Pending)
    (pending : Pending) :
    (operand groups pending).feed d run = some (number groups pending run) := by
  cases run with
  | nil => simp at hhead
  | cons char run =>
    have hdigit : char.isDigit = true := by simpa using hhead
    rw [feed_cons, next?_operand_digit hdigit, Option.bind_some,
      feed_number (fun other hother => hrun other (by simp [hother])), List.singleton_append]

/-- What has been passed is done with: the value depends on the rest and the place alone. -/
theorem run_append {s s' : Scan} {first : List Char} (h : s.feed d first = some s')
    (position : Nat) (second : List Char) :
    s.run d position (first ++ second) = s'.run d (position + first.length) second := by
  induction first generalizing s position with
  | nil =>
    cases h
    rfl
  | cons char first ih =>
    rcases feed_cons_eq_some_iff.mp h with ⟨next, hnext, hfirst⟩
    simp only [List.cons_append, run, hnext, ih hfirst, List.length_cons]
    rw [Nat.add_assoc, Nat.add_comm 1]

theorem run_eq_finish {s s' : Scan} {text : List Char} (h : s.feed d text = some s')
    (position : Nat) : s.run d position text = s'.finish d (position + text.length) := by
  have hrun := run_append h position []
  rw [List.append_nil] at hrun
  exact hrun

theorem exists_feed_of_run_eq_ok {s : Scan} {position : Nat} {text : List Char} {expr : Expr}
    (h : s.run d position text = .ok expr) :
    ∃ s', s.feed d text = some s' ∧ s'.finish d (position + text.length) = .ok expr := by
  induction text generalizing s position with
  | nil => exact ⟨s, rfl, h⟩
  | cons char text ih =>
    cases hnext : s.next? d char with
    | none =>
      simp only [run, hnext] at h
      cases h
    | some next =>
      simp only [run, hnext] at h
      obtain ⟨s', hfeed, hfinish⟩ := ih h
      refine ⟨s', feed_cons_eq_some_iff.mpr ⟨next, hnext, hfeed⟩, ?_⟩
      rw [List.length_cons, Nat.add_comm text.length, ← Nat.add_assoc]
      exact hfinish

/-! ### Behind an operand -/

/-- The pass behind the operand that has just been read; a number ends here. -/
def settle : Scan → Option Scan
  | operand _ _ => none
  | number groups pending run =>
      (Decimal.ofChars? run).map fun decimal =>
        operator groups pending.sum (pending.term (.number decimal))
  | operator groups sum product => some (operator groups sum product)

/-- What settles is behind an operand already, or a number that can be read. -/
theorem settle_cases {s s' : Scan} (h : s.settle = some s') :
    (∃ groups sum product, s = operator groups sum product ∧ s' = operator groups sum product) ∨
      ∃ groups pending run decimal, s = number groups pending run ∧
        Decimal.ofChars? run = some decimal ∧
        s' = operator groups pending.sum (pending.term (.number decimal)) := by
  cases s with
  | operand groups pending => cases h
  | number groups pending run =>
    obtain ⟨decimal, hrun, rfl⟩ := Option.map_eq_some_iff.mp h
    exact .inr ⟨groups, pending, run, decimal, rfl, hrun, rfl⟩
  | operator groups sum product =>
    cases h
    exact .inl ⟨groups, sum, product, rfl, rfl⟩

theorem settle_number {run : List Char} {decimal : Decimal}
    (hrun : Decimal.ofChars? run = some decimal) (groups : List Pending) (pending : Pending) :
    (number groups pending run).settle
      = some (operator groups pending.sum (pending.term (.number decimal))) := by
  rw [settle, hrun, Option.map_some]

section Settle

variable {s s' : Scan} (h : s.settle = some s')
include h

theorem settle_eq_operator : ∃ groups sum product, s' = operator groups sum product := by
  rcases settle_cases h with
    ⟨groups, sum, product, -, rfl⟩ | ⟨groups, pending, run, decimal, -, -, rfl⟩
  · exact ⟨groups, sum, product, rfl⟩
  · exact ⟨groups, pending.sum, _, rfl⟩

theorem next?_of_settle {char : Char} (hchar : Decimal.isNumeralChar char = false) :
    s.next? d char = s'.next? d char := by
  rcases settle_cases h with
    ⟨groups, sum, product, rfl, rfl⟩ | ⟨groups, pending, run, decimal, rfl, hrun, rfl⟩
  · rfl
  · simp [next?, hchar, hrun]

theorem finish_of_settle (position : Nat) : s.finish d position = s'.finish d position := by
  rcases settle_cases h with
    ⟨groups, sum, product, rfl, rfl⟩ | ⟨groups, pending, run, decimal, rfl, hrun, rfl⟩
  · rfl
  · simp only [finish, hrun]

theorem reject_of_settle (position : Nat) (char : Char) :
    s.reject position char = s'.reject position char := by
  rcases settle_cases h with
    ⟨groups, sum, product, rfl, rfl⟩ | ⟨groups, pending, run, decimal, rfl, hrun, rfl⟩
  · rfl
  · simp only [reject, hrun]

theorem groups_of_settle : s.groups = s'.groups := by
  rcases settle_cases h with
    ⟨groups, sum, product, rfl, rfl⟩ | ⟨groups, pending, run, decimal, rfl, hrun, rfl⟩
  · rfl
  · rfl

end Settle

/-- Where a text does not go on with the number, the number may as well be over. -/
theorem run_of_settle {s s' : Scan} (h : s.settle = some s') {text : List Char}
    (htext : text.head?.any Decimal.isNumeralChar = false) (position : Nat) :
    s.run d position text = s'.run d position text := by
  cases text with
  | nil => exact finish_of_settle h position
  | cons char text => simp only [run, next?_of_settle h htext, reject_of_settle h]

/-- Outside all groups there is nothing left to close. -/
theorem finish_of_settle_nil {s : Scan} {sum : Option (Expr × Operator)} {product : Expr}
    (h : s.settle = some (operator [] sum product)) (position : Nat) :
    s.finish d position = .ok (product.join sum) := by
  rw [finish_of_settle h]
  simp [finish, finishOperator, closeAll]

theorem exists_settle_of_finish_eq_ok {s : Scan} {position : Nat} {expr : Expr}
    (h : s.finish d position = .ok expr) :
    ∃ groups sum product, s.settle = some (operator groups sum product) := by
  cases s with
  | operand groups pending => cases h
  | number groups pending run =>
    cases hrun : Decimal.ofChars? run with
    | none =>
      simp only [finish, hrun] at h
      cases h
    | some decimal => exact ⟨_, _, _, settle_number hrun groups pending⟩
  | operator groups sum product => exact ⟨_, _, _, rfl⟩

/-- Where every group has to be closed, a text that ends well ends outside all groups. -/
theorem settle_of_finish_eq_ok {s : Scan} (hstrict : d.requireClosing = true) {position : Nat} {expr : Expr}
    (h : s.finish d position = .ok expr) :
    ∃ sum product, s.settle = some (operator [] sum product) ∧ product.join sum = expr := by
  obtain ⟨groups, sum, product, hsettle⟩ := exists_settle_of_finish_eq_ok h
  cases groups with
  | nil =>
    rw [finish_of_settle_nil hsettle, Except.ok.injEq] at h
    exact ⟨sum, product, hsettle, h⟩
  | cons outer groups =>
    rw [finish_of_settle hsettle, finish, finishOperator, hstrict, List.isEmpty_cons,
      Bool.not_false, Bool.and_true, if_pos rfl] at h
    cases h

/-- Behind an operand spaces pass, and a number in front of them is over. -/
theorem feed_spaces_of_settle {s s' : Scan} (h : s.settle = some s') (blanks : Nat) :
    s.feed d (List.replicate (blanks + 1) ' ') = some s' := by
  obtain ⟨groups, sum, product, rfl⟩ := settle_eq_operator h
  rw [List.replicate_succ, feed_cons, next?_of_settle h rfl, next?_operator_space,
    Option.bind_some]
  exact feed_spaces (next?_operator_space groups sum product) blanks

/-- Spaces behind an operand change nothing for the symbol that follows them. -/
theorem feed_spaces_symbol {s s' : Scan} (h : s.settle = some s') {char : Char}
    (hchar : Decimal.isNumeralChar char = false) (blanks : Nat) (rest : List Char) :
    s.feed d (List.replicate blanks ' ' ++ char :: rest)
      = (s'.next? d char).bind fun next => next.feed d rest := by
  cases blanks with
  | zero => rw [List.replicate_zero, List.nil_append, feed_cons, next?_of_settle h hchar]
  | succ blanks => rw [feed_append_of_eq_some (feed_spaces_of_settle h blanks), feed_cons]

end Scan

end DeskCalculator
