import DeskCalculator.Proofs.OnePass

/-!
# The reader and the single pass

`Scan.read_eq_run` proves that the grammar's functions and the machine of one pass
read every text alike, down to the error and its place.

A rule of the grammar takes a cursor to a later one, and the machine passes the same
characters.  `Scan.Follows` states this square for one rule.  Two rules may leave the
machine in different states that no later character tells apart: a finished term
may or may not have been added to its sum (`Scan.runAt_operator_join`), and a group
that is never closed may or may not have been left (`Scan.follows_unclosed`).  Both
arguments need to know which characters cannot follow, so a rule also says
at which characters it stops.
-/

namespace DeskCalculator

/-! ### Steps of the cursor -/

namespace Cursor

variable {α : Type} {table : Char → Option α} {c : Cursor}

theorem acceptHere?_eq_some {bound : Nat} {shorter : c.rest.length ≤ bound}
    {reading : Reading α bound} (h : acceptHere? table c shorter = some reading) :
    ∃ char, c.rest = char :: reading.next.rest ∧ table char = some reading.value ∧
      reading.next.position = c.position + 1 := by
  obtain ⟨position, rest⟩ := c
  cases rest with
  | nil => simp [acceptHere?] at h
  | cons char rest =>
    cases htable : table char with
    | none => simp [acceptHere?, htable] at h
    | some entry =>
      simp only [acceptHere?, htable, Option.some.injEq] at h
      subst h
      exact ⟨char, rfl, htable, rfl⟩

theorem acceptHere?_eq_none {bound : Nat} {shorter : c.rest.length ≤ bound}
    (h : acceptHere? table c shorter = none) {char : Char} (hcurrent : c.current = some char) :
    table char = none := by
  obtain ⟨position, rest⟩ := c
  cases rest with
  | nil => simp [current] at hcurrent
  | cons head rest =>
    have hhead : head = char := by simpa [current] using hcurrent
    subst hhead
    cases htable : table head with
    | none => rfl
    | some entry => simp [acceptHere?, htable] at h

theorem accept?_eq_some {reading : Reading α c.rest.length} (h : c.accept? table = some reading) :
    ∃ char, c.skipSpaces.rest = char :: reading.next.rest ∧ table char = some reading.value ∧
      reading.next.position = c.skipSpaces.position + 1 :=
  acceptHere?_eq_some h

theorem current_skipSpaces_ne (c : Cursor) : c.skipSpaces.current ≠ some ' ' := by
  intro h
  have hhead := List.head?_dropWhile_not (· == ' ') c.rest
  simp only [skipSpaces, takeWhile, current] at h
  simp [h] at hhead

/-- Neither a space nor a character that the table knows is in view. -/
def Refuses (c : Cursor) (table : Char → Option α) : Prop :=
  ∀ char, c.current = some char → char ≠ ' ' ∧ table char = none

theorem refuses_skipSpaces (h : c.accept? table = none) : c.skipSpaces.Refuses table := by
  intro char hcurrent
  refine ⟨?_, acceptHere?_eq_none h hcurrent⟩
  rintro rfl
  exact c.current_skipSpaces_ne hcurrent

theorem Refuses.skipSpaces_eq (h : c.Refuses table) : c.skipSpaces = c := by
  obtain ⟨position, rest⟩ := c
  cases rest with
  | nil => rfl
  | cons char rest =>
    have hchar : char ≠ ' ' := (h char rfl).1
    simp [skipSpaces, takeWhile, hchar]

theorem current_ne_of_accept?_only {symbol : Char} (h : c.accept? (only symbol) = none) :
    c.skipSpaces.current ≠ some symbol := by
  intro hcurrent
  have hentry := (refuses_skipSpaces h symbol hcurrent).2
  simp [only] at hentry

theorem only_eq_some {symbol char : Char} {entry : Unit} (h : only symbol char = some entry) :
    char = symbol := by
  unfold only at h
  split at h
  · assumption
  · cases h

end Cursor

namespace Scan

variable {d : Dialect}

/-! ### Passing what the cursor passes -/

/-- The value of what is left at a cursor. -/
def runAt (d : Dialect) (s : Scan) (c : Cursor) : Except SyntaxError Expr :=
  s.run d c.position c.rest

theorem runAt_cons {s s' : Scan} {c next : Cursor} {char : Char}
    (hrest : c.rest = char :: next.rest) (hposition : next.position = c.position + 1)
    (hnext : s.next? d char = some s') : s.runAt d c = s'.runAt d next := by
  simp only [runAt, hrest, run, hnext, hposition]

theorem run_skipSpaces {s : Scan} (hspace : s.next? d ' ' = some s) (text : List Char)
    (position : Nat) :
    s.run d position text
      = s.run d (position + (text.takeWhile (· == ' ')).length) (text.dropWhile (· == ' ')) := by
  induction text generalizing position with
  | nil => rfl
  | cons char text ih =>
    by_cases hchar : char = ' '
    · subst hchar
      simp only [run, hspace, ih (position + 1), List.takeWhile_cons_of_pos, beq_self_eq_true,
        List.dropWhile_cons_of_pos, List.length_cons]
      rw [Nat.add_right_comm, Nat.add_assoc]
    · simp [hchar]

theorem runAt_skipSpaces {s : Scan} (hspace : s.next? d ' ' = some s) (c : Cursor) :
    s.runAt d c = s.runAt d c.skipSpaces :=
  run_skipSpaces hspace c.rest c.position

theorem runAt_accept {α : Type} {table : Char → Option α} {s s' : Scan} {c : Cursor}
    {reading : Reading α c.rest.length} (hspace : s.next? d ' ' = some s)
    (haccept : c.accept? table = some reading)
    (hnext : ∀ char, table char = some reading.value → s.next? d char = some s') :
    s.runAt d c = s'.runAt d reading.next := by
  obtain ⟨char, hrest, htable, hposition⟩ := Cursor.accept?_eq_some haccept
  rw [runAt_skipSpaces hspace, runAt_cons hrest hposition (hnext char htable)]

/-! ### What a rule of the grammar does -/

def Follows (d : Dialect) (s : Scan) (c : Cursor) {bound : Nat}
    (result : Except SyntaxError (Reading Expr bound)) (next : Expr → Scan)
    (ends : Cursor → Prop) : Prop :=
  match result with
  | .error e => s.runAt d c = .error e
  | .ok reading =>
      s.runAt d c = (next reading.value).runAt d reading.next ∧ ends reading.next

theorem Follows.of_eq {s s' : Scan} {c c' : Cursor} {bound : Nat}
    {result : Except SyntaxError (Reading Expr bound)} {next : Expr → Scan} {ends : Cursor → Prop}
    (h : Follows d s' c' result next ends) (hrun : s.runAt d c = s'.runAt d c') :
    Follows d s c result next ends := by
  cases result with
  | error e => exact hrun.trans h
  | ok reading => exact ⟨hrun.trans h.1, h.2⟩

/-- No term goes on here: a space would have been passed, and an operator of products taken. -/
def EndsTerm (c : Cursor) : Prop := c.Refuses Operator.multiplicative?

/-- No expression goes on here either. -/
def EndsExpression (c : Cursor) : Prop := EndsTerm c ∧ c.Refuses Operator.additive?

/-- No chain of signs goes on here. -/
def EndsSigns (c : Cursor) : Prop := c.Refuses sign?

theorem endsSigns_signs (negative : Bool) (c : Cursor) : EndsSigns (Expr.signs negative c).2 := by
  fun_induction Expr.signs negative c with
  | case1 negative c sign haccept ih => exact ih
  | case2 negative c haccept => exact Cursor.refuses_skipSpaces haccept

/-- Where a term has ended, it does not matter whether it has been added to the sum yet. -/
theorem runAt_operator_join {c : Cursor} (h : EndsTerm c) (groups : List Pending)
    (sum : Option (Expr × Operator)) (term : Expr) :
    (operator groups sum term).runAt d c = (operator groups none (term.join sum)).runAt d c := by
  obtain ⟨position, rest⟩ := c
  cases rest with
  | nil => rfl
  | cons char rest =>
    obtain ⟨hspace, hfactor⟩ := h char rfl
    simp only [runAt, run, next?, nextOfOperator, hspace, hfactor, Expr.join_none, reject, if_false]

/-- Where an expression has ended and no group closes, the pass stops, whatever the groups. -/
theorem runAt_operator_of_endsExpression {c : Cursor} (h : EndsExpression c)
    (hclose : c.current ≠ some ')') (groups : List Pending)
    (sum : Option (Expr × Operator)) (term : Expr) :
    (operator groups sum term).runAt d c
      = match c.rest with
        | [] => finishOperator d groups (term.join sum) c.position
        | char :: _ => .error (.unexpectedChar char c.position) := by
  obtain ⟨position, rest⟩ := c
  cases rest with
  | nil => rfl
  | cons char rest =>
    obtain ⟨hspace, hfactor⟩ := h.1 char rfl
    have hterm := (h.2 char rfl).2
    have hchar : char ≠ ')' := by simpa [Cursor.current] using hclose
    simp [runAt, run, next?, nextOfOperator, hspace, hterm, hfactor, hchar, reject]


theorem runAt_signs (negative : Bool) (c : Cursor) (groups : List Pending)
    (sum product : Option (Expr × Operator)) :
    (operand groups ⟨sum, product, negative⟩).runAt d c
      = (operand groups ⟨sum, product, (Expr.signs negative c).1⟩).runAt d
          (Expr.signs negative c).2 := by
  fun_induction Expr.signs negative c with
  | case1 negative c sign haccept ih =>
    rw [← ih]
    exact runAt_accept (next?_operand_space _ _) haccept fun char hsign =>
      next?_operand_sign hsign _ _
  | case2 negative c => exact runAt_skipSpaces (next?_operand_space _ _) c

/-- A pass within a number goes on to the end of its run and takes its value there. -/
theorem run_number (groups : List Pending) (pending : Pending) (rest : List Char)
    (run : List Char) (position : Nat) :
    (number groups pending run).run d position rest
      = match Decimal.ofChars? (run ++ rest.takeWhile Decimal.isNumeralChar) with
        | none =>
            .error (.malformedNumber (String.ofList (run ++ rest.takeWhile Decimal.isNumeralChar))
              (position - run.length))
        | some decimal =>
            (operator groups pending.sum (pending.term (.number decimal))).run d
              (position + (rest.takeWhile Decimal.isNumeralChar).length)
              (rest.dropWhile Decimal.isNumeralChar) := by
  induction rest generalizing run position with
  | nil =>
    simp only [Scan.run, finish, List.takeWhile_nil, List.append_nil]
    cases Decimal.ofChars? run <;> rfl
  | cons char rest ih =>
    cases hchar : Decimal.isNumeralChar char with
    | true =>
      have hlength : position + 1 - (run ++ [char]).length = position - run.length := by simp
      simp only [Scan.run, next?, hchar, if_true, ih, hlength, List.append_assoc,
        List.singleton_append, List.takeWhile_cons_of_pos, List.dropWhile_cons_of_pos,
        List.length_cons, Nat.add_assoc, Nat.add_comm 1]
    | false =>
      simp only [Scan.run, next?, hchar, reject, List.takeWhile_cons, List.dropWhile_cons,
        List.append_nil, List.length_nil, Nat.add_zero, Bool.false_eq_true, if_false]
      cases Decimal.ofChars? run <;> rfl

/-- A pass over a number keeps its whole run and takes its value at the end of the run. -/
theorem runAt_decimal {c : Cursor} (hdigit : c.current.any Char.isDigit = true)
    (groups : List Pending) (pending : Pending) :
    (operand groups pending).runAt d c
      = match Decimal.ofChars? (c.takeWhile Decimal.isNumeralChar).1 with
        | none =>
            .error
              (.malformedNumber (String.ofList (c.takeWhile Decimal.isNumeralChar).1) c.position)
        | some decimal =>
            (operator groups pending.sum (pending.term (.number decimal))).runAt d
              (c.takeWhile Decimal.isNumeralChar).2 := by
  obtain ⟨position, rest⟩ := c
  cases rest with
  | nil => simp [Cursor.current] at hdigit
  | cons char rest =>
    have hchar : char.isDigit = true := by simpa [Cursor.current] using hdigit
    have hnumeral : Decimal.isNumeralChar char = true := by simp [Decimal.isNumeralChar, hchar]
    simp only [runAt, Scan.run, next?_operand_digit hchar, run_number, Cursor.takeWhile,
      List.takeWhile_cons_of_pos hnumeral, List.dropWhile_cons_of_pos hnumeral,
      List.singleton_append, List.length_cons, Nat.add_assoc, Nat.add_comm 1]
    rfl

/-! ### The rules, one by one -/

def ExpressionFollows (d : Dialect) (depth : Nat) (c : Cursor) : Prop :=
  ∀ groups, groups.length = depth →
    Follows d (operand groups .start) c (Expr.expression d depth c) (operator groups none)
      EndsExpression

def SumFollows (d : Dialect) (bound depth : Nat) (left : Expr) (c : Cursor)
    (shorter : c.rest.length < bound) : Prop :=
  ∀ groups, groups.length = depth → EndsTerm c →
    Follows d (operator groups none left) c (Expr.sum d depth left c shorter)
      (operator groups none) EndsExpression

def TermFollows (d : Dialect) (depth : Nat) (c : Cursor) : Prop :=
  ∀ groups sum, groups.length = depth →
    Follows d (operand groups ⟨sum, none, false⟩) c (Expr.term d depth c) (operator groups sum)
      EndsTerm

def ProductFollows (d : Dialect) (bound depth : Nat) (left : Expr) (c : Cursor)
    (shorter : c.rest.length < bound) : Prop :=
  ∀ groups sum, groups.length = depth →
    Follows d (operator groups sum left) c (Expr.product d depth left c shorter)
      (operator groups sum) EndsTerm

def FactorFollows (d : Dialect) (depth : Nat) (c : Cursor) : Prop :=
  ∀ groups sum product, groups.length = depth →
    Follows d (operand groups ⟨sum, product, false⟩) c (Expr.factor d depth c)
      (fun factor => operator groups sum (factor.join product)) fun _ => True

def PrimaryFollows (d : Dialect) (depth : Nat) (c : Cursor) : Prop :=
  ∀ groups pending, groups.length = depth → EndsSigns c →
    Follows d (operand groups pending) c (Expr.primary d depth c)
      (fun operand => operator groups pending.sum (pending.term operand)) fun _ => True

variable {depth bound : Nat} {left : Expr} {c : Cursor} {shorter : c.rest.length < bound}

theorem expressionFollows (hterm : TermFollows d depth c)
    (hsum : ∀ first, Expr.term d depth c = .ok first →
      SumFollows d c.rest.length depth first.value first.next first.shorter) :
    ExpressionFollows d depth c := by
  intro groups hdepth
  have hfirst := hterm groups none hdepth
  rw [Expr.expression]
  cases hread : Expr.term d depth c with
  | error e =>
    rw [hread] at hfirst
    exact hfirst
  | ok first =>
    rw [hread] at hfirst
    exact (hsum first hread groups hdepth hfirst.2).of_eq hfirst.1

theorem sumFollows_of_none (haccept : c.accept? Operator.additive? = none) :
    SumFollows d bound depth left c shorter := by
  intro groups _ hends
  rw [Expr.sum, haccept]
  refine ⟨runAt_skipSpaces (next?_operator_space _ _ _) c, ?_, Cursor.refuses_skipSpaces haccept⟩
  show EndsTerm c.skipSpaces
  rw [hends.skipSpaces_eq]
  exact hends

theorem sumFollows_of_some {op : Reading Operator c.rest.length}
    (haccept : c.accept? Operator.additive? = some op) (hterm : TermFollows d depth op.next)
    (hsum : ∀ right, Expr.term d depth op.next = .ok right →
      SumFollows d bound depth (.binary op.value left right.value) right.next
        (Nat.lt_trans (op.shorter_of_next right) shorter)) :
    SumFollows d bound depth left c shorter := by
  intro groups hdepth _
  have hop : (operator groups none left).runAt d c
      = (operand groups ⟨some (left, op.value), none, false⟩).runAt d op.next :=
    runAt_accept (next?_operator_space _ _ _) haccept fun char hchar =>
      next?_operator_additive hchar groups none left
  have hright := hterm groups (some (left, op.value)) hdepth
  rw [Expr.sum, haccept]
  cases hread : Expr.term d depth op.next with
  | error e =>
    rw [hread] at hright
    simp only [hread]
    exact hop.trans hright
  | ok right =>
    rw [hread] at hright
    simp only [hread]
    refine (hsum right hread groups hdepth hright.2).of_eq ?_
    rw [hop, hright.1, runAt_operator_join hright.2]
    rfl

theorem termFollows (hfactor : FactorFollows d depth c)
    (hproduct : ∀ first, Expr.factor d depth c = .ok first →
      ProductFollows d c.rest.length depth first.value first.next first.shorter) :
    TermFollows d depth c := by
  intro groups sum hdepth
  have hfirst := hfactor groups sum none hdepth
  rw [Expr.term]
  cases hread : Expr.factor d depth c with
  | error e =>
    rw [hread] at hfirst
    exact hfirst
  | ok first =>
    rw [hread] at hfirst
    exact (hproduct first hread groups sum hdepth).of_eq hfirst.1

theorem productFollows_of_none (haccept : c.accept? Operator.multiplicative? = none) :
    ProductFollows d bound depth left c shorter := by
  intro groups sum _
  rw [Expr.product, haccept]
  exact ⟨runAt_skipSpaces (next?_operator_space _ _ _) c, Cursor.refuses_skipSpaces haccept⟩

theorem productFollows_of_some {op : Reading Operator c.rest.length}
    (haccept : c.accept? Operator.multiplicative? = some op)
    (hfactor : FactorFollows d depth op.next)
    (hproduct : ∀ right, Expr.factor d depth op.next = .ok right →
      ProductFollows d bound depth (.binary op.value left right.value) right.next
        (Nat.lt_trans (op.shorter_of_next right) shorter)) :
    ProductFollows d bound depth left c shorter := by
  intro groups sum hdepth
  have hop : (operator groups sum left).runAt d c
      = (operand groups ⟨sum, some (left, op.value), false⟩).runAt d op.next :=
    runAt_accept (next?_operator_space _ _ _) haccept fun char hchar =>
      next?_operator_multiplicative hchar groups sum left
  have hright := hfactor groups sum (some (left, op.value)) hdepth
  rw [Expr.product, haccept]
  cases hread : Expr.factor d depth op.next with
  | error e =>
    rw [hread] at hright
    simp only [hread]
    exact hop.trans hright
  | ok right =>
    rw [hread] at hright
    simp only [hread]
    exact (hproduct right hread groups sum hdepth).of_eq (hop.trans hright.1)

theorem factorFollows (hprimary : PrimaryFollows d depth (Expr.signs false c).2) :
    FactorFollows d depth c := by
  intro groups sum product hdepth
  have hsigns := runAt_signs (d := d) false c groups sum product
  have hoperand := hprimary groups ⟨sum, product, (Expr.signs false c).1⟩ hdepth
    (endsSigns_signs false c)
  rw [Expr.factor]
  cases hread : Expr.primary d depth (Expr.signs false c).2 with
  | error e =>
    rw [hread] at hoperand
    exact hsigns.trans hoperand
  | ok operand =>
    rw [hread] at hoperand
    exact ⟨hsigns.trans hoperand.1, trivial⟩

/-- An unclosed group: strict readers report the place, generous ones close it, and in the
    pass both come to the same as staying inside. -/
theorem follows_unclosed {inside : Cursor} {value : Expr} (hends : EndsExpression inside)
    (haccept : inside.accept? (Cursor.only ')') = none) (shorter : inside.rest.length < bound)
    (groups : List Pending) (pending : Pending) :
    Follows d (operator (pending :: groups) none value) inside
      (if d.requireClosing then .error inside.skipSpaces.errorHere
        else .ok (inside.complete value shorter))
      (fun operand => operator groups pending.sum (pending.term operand)) fun _ => True := by
  have hclose : inside.current ≠ some ')' :=
    hends.1.skipSpaces_eq ▸ Cursor.current_ne_of_accept?_only haccept
  have hrun := runAt_operator_of_endsExpression (d := d) hends hclose
  rw [hends.1.skipSpaces_eq]
  cases hstrict : d.requireClosing with
  | true =>
    simp only [if_true]
    show (operator (pending :: groups) none value).runAt d inside = _
    rw [hrun]
    obtain ⟨position, rest⟩ := inside
    cases rest <;> simp [finishOperator, hstrict, Cursor.errorHere, Cursor.current]
  | false =>
    simp only [Bool.false_eq_true, if_false]
    refine ⟨?_, trivial⟩
    show (operator (pending :: groups) none value).runAt d inside
      = (operator groups pending.sum (pending.term value)).runAt d inside.skipSpaces
    rw [hends.1.skipSpaces_eq, hrun, hrun]
    simp [finishOperator, hstrict, closeAll]

theorem primaryFollows_of_group {opening : Reading Unit c.rest.length}
    (haccept : c.accept? (Cursor.only '(') = some opening) (hallows : d.allowsGroup depth = true)
    (hinside : ExpressionFollows d (depth + 1) opening.next) : PrimaryFollows d depth c := by
  intro groups pending hdepth _
  have hopen : (operand groups pending).runAt d c
      = (operand (pending :: groups) .start).runAt d opening.next :=
    runAt_accept (next?_operand_space _ _) haccept fun char hchar =>
      Cursor.only_eq_some hchar ▸ next?_operand_open (hdepth ▸ hallows) pending
  have hvalue := hinside (pending :: groups) (by simp [hdepth])
  rw [Expr.primary, haccept]
  simp only [hallows, if_true]
  cases hread : Expr.expression d (depth + 1) opening.next with
  | error e =>
    rw [hread] at hvalue
    exact hopen.trans hvalue
  | ok inside =>
    rw [hread] at hvalue
    simp only
    cases hclosing : inside.next.accept? (Cursor.only ')') with
    | some closing =>
      refine ⟨?_, trivial⟩
      rw [hopen, hvalue.1]
      exact runAt_accept (next?_operator_space _ _ _) hclosing fun char hchar => by
        rw [Cursor.only_eq_some hchar]
        rfl
    | none =>
      exact (follows_unclosed hvalue.2 hclosing _ groups pending).of_eq (hopen.trans hvalue.1)

theorem primaryFollows_of_limit {opening : Reading Unit c.rest.length}
    (haccept : c.accept? (Cursor.only '(') = some opening)
    (hallows : ¬ d.allowsGroup depth = true) : PrimaryFollows d depth c := by
  intro groups pending hdepth hsigns
  obtain ⟨char, hrest, hchar, -⟩ := Cursor.accept?_eq_some haccept
  rw [Expr.primary, haccept]
  simp only [hallows]
  show (operand groups pending).runAt d c = _
  rw [hsigns.skipSpaces_eq] at hrest ⊢
  rw [Cursor.only_eq_some hchar] at hrest
  simp [runAt, hrest, run, next?, nextOfOperand, sign?, reject, hdepth, hallows]

theorem follows_decimal (hsigns : EndsSigns c) (hopen : c.current ≠ some '(')
    (groups : List Pending) (pending : Pending) :
    match c.decimal with
    | .error e => (operand groups pending).runAt d c = .error e
    | .ok decimal =>
        (operand groups pending).runAt d c
          = (operator groups pending.sum (pending.term (.number decimal.value))).runAt d
              decimal.next := by
  unfold Cursor.decimal
  by_cases hdigit : c.current.any Char.isDigit = true
  · simp only [dif_pos hdigit]
    have hrun := runAt_decimal (d := d) hdigit groups pending
    revert hrun
    cases Decimal.ofChars? (c.takeWhile Decimal.isNumeralChar).1 with
    | none => exact id
    | some decimal => exact id
  · simp only [dif_neg hdigit]
    obtain ⟨position, rest⟩ := c
    cases rest with
    | nil => rfl
    | cons char rest =>
      obtain ⟨hspace, hsign⟩ := hsigns char rfl
      have hparen : char ≠ '(' := by simpa [Cursor.current] using hopen
      have hchar : char.isDigit = false := by simpa [Cursor.current] using hdigit
      simp [runAt, run, next?, nextOfOperand, hspace, hsign, hparen, hchar, reject,
        Cursor.errorHere, Cursor.current]

theorem primaryFollows_of_number (haccept : c.accept? (Cursor.only '(') = none) :
    PrimaryFollows d depth c := by
  intro groups pending hdepth hsigns
  have hdecimal := follows_decimal (d := d) (hsigns.skipSpaces_eq.symm ▸ hsigns)
    (Cursor.current_ne_of_accept?_only haccept) groups pending
  have hskip := runAt_skipSpaces (next?_operand_space (d := d) groups pending) c
  rw [Expr.primary, haccept]
  simp only
  cases hread : c.skipSpaces.decimal with
  | error e =>
    rw [hread] at hdecimal
    exact hskip.trans hdecimal
  | ok decimal =>
    rw [hread] at hdecimal
    exact ⟨hskip.trans hdecimal, trivial⟩

/-! ### The whole reader -/

theorem reader_follows (d : Dialect) :
    (∀ depth c, ExpressionFollows d depth c) ∧
    (∀ bound depth left c shorter, SumFollows d bound depth left c shorter) ∧
    (∀ depth c, TermFollows d depth c) ∧
    (∀ bound depth left c shorter, ProductFollows d bound depth left c shorter) ∧
    (∀ depth c, FactorFollows d depth c) ∧ ∀ depth c, PrimaryFollows d depth c := by
  apply Expr.expression.mutual_induct d
  case case1 =>
    intro depth c e hterm ih
    exact expressionFollows ih fun first hfirst => nomatch hterm.symm.trans hfirst
  case case2 =>
    intro depth c first hterm ihterm ihsum
    refine expressionFollows ihterm fun other hother => ?_
    cases hterm.symm.trans hother
    exact ihsum
  case case3 =>
    intro bound depth left c shorter haccept
    exact sumFollows_of_none haccept
  case case4 =>
    intro bound depth left c shorter op haccept e hterm ih
    exact sumFollows_of_some haccept ih fun right hright => nomatch hterm.symm.trans hright
  case case5 =>
    intro bound depth left c shorter op haccept right hterm ihterm ihsum
    refine sumFollows_of_some haccept ihterm fun other hother => ?_
    cases hterm.symm.trans hother
    exact ihsum
  case case6 =>
    intro depth c e hfactor ih
    exact termFollows ih fun first hfirst => nomatch hfactor.symm.trans hfirst
  case case7 =>
    intro depth c first hfactor ihfactor ihproduct
    refine termFollows ihfactor fun other hother => ?_
    cases hfactor.symm.trans hother
    exact ihproduct
  case case8 =>
    intro bound depth left c shorter haccept
    exact productFollows_of_none haccept
  case case9 =>
    intro bound depth left c shorter op haccept e hfactor ih
    exact productFollows_of_some haccept ih fun right hright => nomatch hfactor.symm.trans hright
  case case10 =>
    intro bound depth left c shorter op haccept right hfactor ihfactor ihproduct
    refine productFollows_of_some haccept ihfactor fun other hother => ?_
    cases hfactor.symm.trans hother
    exact ihproduct
  case case11 =>
    intro depth c e hprimary ih
    exact factorFollows ih
  case case12 =>
    intro depth c operand hprimary ih
    exact factorFollows ih
  case case13 =>
    intro depth c opening haccept hallows e hinside ih
    exact primaryFollows_of_group haccept hallows ih
  case case14 =>
    intro depth c opening haccept hallows inside hinside closing hclosing ih
    exact primaryFollows_of_group haccept hallows ih
  case case15 =>
    intro depth c opening haccept hallows inside hinside hclosing hstrict ih
    exact primaryFollows_of_group haccept hallows ih
  case case16 =>
    intro depth c opening haccept hallows inside hinside hclosing hstrict ih
    exact primaryFollows_of_group haccept hallows ih
  case case17 =>
    intro depth c opening haccept hallows
    exact primaryFollows_of_limit haccept hallows
  case case18 =>
    intro depth c haccept e hdecimal
    exact primaryFollows_of_number haccept
  case case19 =>
    intro depth c haccept decimal hdecimal
    exact primaryFollows_of_number haccept

/-- One pass reads what the grammar's functions read, with the same errors at the same
    places. -/
theorem read_eq_run (d : Dialect) (text : String) :
    Expr.read d text = start.run d 0 text.toList := by
  have hfollows := (reader_follows d).1 0 (Cursor.ofText text) [] rfl
  show _ = start.runAt d (Cursor.ofText text)
  unfold Expr.read
  cases hread : Expr.expression d 0 (Cursor.ofText text) with
  | error e =>
    rw [hread] at hfollows
    exact hfollows.symm
  | ok reading =>
    rw [hread] at hfollows
    obtain ⟨hrun, hends⟩ := hfollows
    refine Eq.trans ?_ hrun.symm
    obtain ⟨value, ⟨position, rest⟩, shorter⟩ := reading
    simp only [Cursor.finish, hends.1.skipSpaces_eq]
    cases rest with
    | nil => simp [Cursor.atEnd, runAt, run, finish, finishOperator, closeAll]
    | cons char rest =>
      obtain ⟨hspace, hfactor⟩ := hends.1 char rfl
      have hterm := (hends.2 char rfl).2
      by_cases hclose : char = ')'
      · simp [Cursor.atEnd, Cursor.errorHere, Cursor.current, runAt, run, next?, nextOfOperator,
          hclose, Operator.additive?, Operator.multiplicative?, closeGroup, reject]
      · simp [Cursor.atEnd, Cursor.errorHere, Cursor.current, runAt, run, next?, nextOfOperator,
          hspace, hterm, hfactor, hclose, reject]

end Scan
end DeskCalculator
