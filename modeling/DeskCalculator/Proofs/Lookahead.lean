import DeskCalculator.Proofs.RuleCalls
import DeskCalculator.Proofs.SameStretch

/-!
# How far the rules go and how far they look

The rules of the grammar call one another in a circle.  Each call has fewer characters left than
its caller, or as many at a lower level, so no chain of calls is infinite
(`Expr.wellFounded_calls`).  A rule that succeeds has passed at least one character, and one that
fails reports a place no earlier than where it started.

What a rule makes of a text depends on the characters it passes and on one more, the one that
stops it.  Wherever the same stretch of text stands, the rule reads the same.

Both facts are proved together (`Expr.reader_behaves`): to compare two readings of a sum, one
has to know that its terms lie one behind the other.
-/

namespace DeskCalculator

/-- The position is one that can be reached from here. -/
def Cursor.LeadsTo (c : Cursor) (position : Nat) : Prop :=
  ∃ passed next, c.Passes passed next ∧ next.position = position

theorem Cursor.Passes.leadsTo {c next : Cursor} {passed : List Char} {position : Nat}
    (h : c.Passes passed next) (hnext : next.LeadsTo position) : c.LeadsTo position := by
  obtain ⟨more, last, hmore, hposition⟩ := hnext
  exact ⟨_, last, h.trans hmore, hposition⟩

namespace Expr

open Cursor

variable {α : Type} {d : Dialect} {depth : Nat} {c : Cursor}

/-! ### What a rule may do -/

/-- A rule that starts here. -/
abbrev Rule (α : Type) : Type := (c : Cursor) → Except SyntaxError (Reading α c.rest.length)

/-- Where a rule may come to, and what that depends on. -/
structure Behaves (rule : Rule α) (c : Cursor) : Prop where
  reads : ∀ reading, rule c = .ok reading → ∃ passed, c.Passes passed reading.next
  fails : ∀ e, rule c = .error e → c.LeadsTo e.position
  /-- The same stretch of another text is read the same. -/
  isLocal : ∀ reading, rule c = .ok reading → ∀ c' next', SameStretch c reading.next c' next' →
    ∃ reading', rule c' = .ok reading' ∧ reading'.value = reading.value ∧ reading'.next = next'

/-- What goes on with a value that has been read so far. -/
abbrev Loop : Type :=
  (bound : Nat) → Expr → (c : Cursor) → c.rest.length < bound →
    Except SyntaxError (Reading Expr bound)

/-- The same for a loop, whatever bound it was given. -/
structure LoopBehaves (loop : Loop) (left : Expr) (c : Cursor) : Prop where
  reads : ∀ bound shorter reading, loop bound left c shorter = .ok reading →
    ∃ passed, c.Passes passed reading.next
  fails : ∀ bound shorter e, loop bound left c shorter = .error e → c.LeadsTo e.position
  isLocal : ∀ bound shorter reading, loop bound left c shorter = .ok reading →
    ∀ c' next', SameStretch c reading.next c' next' → ∀ bound' shorter',
      ∃ reading', loop bound' left c' shorter' = .ok reading' ∧ reading'.value = reading.value ∧
        reading'.next = next'

theorem Behaves.of_error {rule : Rule α} {e : SyntaxError} (h : rule c = .error e)
    (hplace : c.LeadsTo e.position) : Behaves rule c where
  reads := by
    intro reading hread
    cases h.symm.trans hread
  fails := by
    intro other hother
    cases h.symm.trans hother
    exact hplace
  isLocal := by
    intro reading hread
    cases h.symm.trans hread

theorem Behaves.of_ok {rule : Rule α} {x : Reading α c.rest.length} {passed : List Char}
    (h : rule c = .ok x) (hpasses : c.Passes passed x.next)
    (hlocal : ∀ c' next', SameStretch c x.next c' next' →
      ∃ x', rule c' = .ok x' ∧ x'.value = x.value ∧ x'.next = next') : Behaves rule c where
  reads := by
    intro reading hread
    cases h.symm.trans hread
    exact ⟨passed, hpasses⟩
  fails := by
    intro e hread
    cases h.symm.trans hread
  isLocal := by
    intro reading hread
    cases h.symm.trans hread
    exact hlocal

/-! ### Sums and products -/

/-- A rule reads its first operand and then goes on with a loop. -/
structure StartsLoop (rule first : Rule Expr) (loop : Loop) : Prop where
  fails : ∀ {c e}, first c = .error e → rule c = .error e
  goesOn : ∀ {c x}, first c = .ok x → rule c = loop c.rest.length x.value x.next x.shorter

/-- A loop joins operands as long as an operator stands in front of them. -/
structure IsLoop (table : Char → Option Operator) (operand : Rule Expr) (loop : Loop) : Prop where
  stops : ∀ {bound left c shorter}, c.accept? table = none →
    loop bound left c shorter = .ok (c.complete left shorter)
  fails : ∀ {bound left c shorter op e}, c.accept? table = some op → operand op.next = .error e →
    loop bound left c shorter = .error e
  goesOn : ∀ {bound left c shorter op right}, c.accept? table = some op →
    operand op.next = .ok right →
    loop bound left c shorter = loop bound (.binary op.value left right.value) right.next
      (Nat.lt_trans (op.shorter_of_next right) shorter)

theorem startsLoop_expression (d : Dialect) (depth : Nat) :
    StartsLoop (expression d depth) (term d depth) (@sum · d depth) where
  fails h := by rw [expression, h]
  goesOn h := by rw [expression, h]

theorem startsLoop_term (d : Dialect) (depth : Nat) :
    StartsLoop (term d depth) (factor d depth) (@product · d depth) where
  fails h := by rw [term, h]
  goesOn h := by rw [term, h]

theorem isLoop_sum (d : Dialect) (depth : Nat) :
    IsLoop Operator.additive? (term d depth) (@sum · d depth) where
  stops h := by rw [sum, h]
  fails h h' := by
    rw [sum, h]
    simp only [h']
  goesOn h h' := by
    rw [sum, h]
    simp only [h']

theorem isLoop_product (d : Dialect) (depth : Nat) :
    IsLoop Operator.multiplicative? (factor d depth) (@product · d depth) where
  stops h := by rw [product, h]
  fails h h' := by
    rw [product, h]
    simp only [h']
  goesOn h h' := by
    rw [product, h]
    simp only [h']

section Loops

variable {rule first : Rule Expr} {loop : Loop} {table : Char → Option Operator} {left : Expr}

theorem StartsLoop.behaves (hrule : StartsLoop rule first loop) (hfirst : Behaves first c)
    (hloop : ∀ x, first c = .ok x → LoopBehaves loop x.value x.next) : Behaves rule c := by
  cases hread : first c with
  | error e => exact .of_error (hrule.fails hread) (hfirst.fails e hread)
  | ok x =>
    have hmore := hloop x hread
    obtain ⟨passed, hpasses⟩ := hfirst.reads x hread
    cases hresult : loop c.rest.length x.value x.next x.shorter with
    | error e =>
      exact .of_error ((hrule.goesOn hread).trans hresult)
        (hpasses.leadsTo (hmore.fails _ _ _ hresult))
    | ok reading =>
      obtain ⟨more, hpasses'⟩ := hmore.reads _ _ _ hresult
      refine .of_ok ((hrule.goesOn hread).trans hresult) (hpasses.trans hpasses') ?_
      intro c' next' hsame
      obtain ⟨middle', hsame, hsame'⟩ := hsame.split hpasses hpasses'
      obtain ⟨⟨value, next, shorter⟩, hread', rfl, rfl⟩ := hfirst.isLocal x hread c' _ hsame
      obtain ⟨reading', hresult', hvalue⟩ :=
        hmore.isLocal _ _ _ hresult _ _ hsame' c'.rest.length shorter
      exact ⟨reading', (hrule.goesOn hread').trans hresult', hvalue⟩

theorem IsLoop.behaves_of_none (hloop : IsLoop table first loop) (haccept : c.accept? table = none) :
    LoopBehaves loop left c where
  reads := by
    intro bound shorter reading hread
    obtain ⟨blanks, hskip⟩ := c.passes_skipSpaces
    rw [hloop.stops haccept] at hread
    cases hread
    exact ⟨_, hskip⟩
  fails := by
    intro bound shorter e hread
    rw [hloop.stops haccept] at hread
    cases hread
  isLocal := by
    intro bound shorter reading hread c' next' hsame bound' shorter'
    rw [hloop.stops haccept] at hread
    cases hread
    exact ⟨_, hloop.stops (hsame.accept?_eq_none haccept), rfl, hsame.skipSpaces_eq⟩

theorem IsLoop.behaves_of_error (hloop : IsLoop table first loop)
    {op : Reading Operator c.rest.length} (haccept : c.accept? table = some op) {e : SyntaxError}
    (hread : first op.next = .error e) (hplace : op.next.LeadsTo e.position) :
    LoopBehaves loop left c where
  reads := by
    intro bound shorter reading hresult
    rw [hloop.fails haccept hread] at hresult
    cases hresult
  fails := by
    intro bound shorter other hresult
    obtain ⟨passed, hop⟩ := exists_passes_of_accept? haccept
    rw [hloop.fails haccept hread] at hresult
    cases hresult
    exact hop.leadsTo hplace
  isLocal := by
    intro bound shorter reading hresult
    rw [hloop.fails haccept hread] at hresult
    cases hresult

theorem IsLoop.behaves_of_ok (hloop : IsLoop table first loop)
    {op : Reading Operator c.rest.length} (haccept : c.accept? table = some op)
    {right : Reading Expr op.next.rest.length} (hread : first op.next = .ok right)
    (hoperand : Behaves first op.next)
    (hmore : LoopBehaves loop (.binary op.value left right.value) right.next) :
    LoopBehaves loop left c := by
  obtain ⟨passed, hop⟩ := exists_passes_of_accept? haccept
  obtain ⟨middle, hright⟩ := hoperand.reads right hread
  constructor
  · intro bound shorter reading hresult
    rw [hloop.goesOn haccept hread] at hresult
    obtain ⟨more, hpasses⟩ := hmore.reads _ _ _ hresult
    exact ⟨_, (hop.trans hright).trans hpasses⟩
  · intro bound shorter e hresult
    rw [hloop.goesOn haccept hread] at hresult
    exact (hop.trans hright).leadsTo (hmore.fails _ _ _ hresult)
  · intro bound shorter reading hresult c' next' hsame bound' shorter'
    rw [hloop.goesOn haccept hread] at hresult
    obtain ⟨more, hpasses⟩ := hmore.reads _ _ _ hresult
    -- the operator, its operand and what comes behind them, each in the other text
    obtain ⟨middle', hsame, hbehind⟩ := hsame.split (hop.trans hright) hpasses
    obtain ⟨start', hsymbol, hsame⟩ := hsame.split hop hright
    obtain ⟨op', haccept', hvalue, rfl⟩ := hsymbol.accept?_eq_some haccept
    obtain ⟨right', hread', hright', rfl⟩ := hoperand.isLocal right hread _ _ hsame
    obtain ⟨reading', hresult', hsame'⟩ := hmore.isLocal _ _ _ hresult _ _ hbehind bound'
      (Nat.lt_trans (op'.shorter_of_next right') shorter')
    refine ⟨reading', ?_, hsame'⟩
    rw [hloop.goesOn haccept' hread', hvalue, hright', hresult']

end Loops

/-! ### Factors -/

theorem passes_signs (negative : Bool) (c : Cursor) :
    ∃ passed, c.Passes passed (signs negative c).2 := by
  fun_induction signs negative c with
  | case1 negative c sign haccept ih =>
    obtain ⟨passed, hsign⟩ := exists_passes_of_accept? haccept
    obtain ⟨more, hsigns⟩ := ih
    exact ⟨_, hsign.trans hsigns⟩
  | case2 negative c haccept =>
    obtain ⟨blanks, hskip⟩ := c.passes_skipSpaces
    exact ⟨_, hskip⟩

theorem signs_of_sameStretch (negative : Bool) (c : Cursor) {c' next' : Cursor}
    (h : SameStretch c (signs negative c).2 c' next') :
    signs negative c' = ((signs negative c).1, next') := by
  fun_induction signs negative c generalizing c' with
  | case1 negative c sign haccept ih =>
    obtain ⟨passed, hsign⟩ := exists_passes_of_accept? haccept
    obtain ⟨more, hsigns⟩ := passes_signs (negative ^^ sign.value) sign.next
    obtain ⟨middle', hfirst, hrest⟩ := h.split hsign hsigns
    obtain ⟨sign', haccept', hvalue, rfl⟩ := hfirst.accept?_eq_some haccept
    rw [signs, haccept']
    simp only [hvalue]
    exact ih hrest
  | case2 negative c haccept =>
    rw [signs, h.accept?_eq_none haccept]
    simp only [h.skipSpaces_eq]

theorem factor_behaves (hprimary : Behaves (primary d depth) (signs false c).2) :
    Behaves (factor d depth) c := by
  obtain ⟨passed, hsigns⟩ := passes_signs false c
  cases hread : primary d depth (signs false c).2 with
  | error e =>
    have hfactor : factor d depth c = .error e := by rw [factor, hread]
    exact .of_error hfactor (hsigns.leadsTo (hprimary.fails e hread))
  | ok operand =>
    obtain ⟨more, hpasses⟩ := hprimary.reads operand hread
    have hfactor : factor d depth c = .ok ⟨negateIf (signs false c).1 operand.value, operand.next,
        Nat.lt_of_lt_of_le operand.shorter (length_rest_signs_le false c)⟩ := by
      rw [factor, hread]
    refine .of_ok hfactor (hsigns.trans hpasses) ?_
    intro c' next' hsame
    obtain ⟨middle', hsame, hsame'⟩ := hsame.split hsigns hpasses
    obtain ⟨operand', hread', hvalue, hnext⟩ := hprimary.isLocal operand hread _ _ hsame'
    have hsigns' := signs_of_sameStretch false c hsame
    have hnegative : (signs false c').1 = (signs false c).1 := by rw [hsigns']
    have hplace : (signs false c').2 = middle' := by rw [hsigns']
    subst hplace
    rw [factor, hread']
    refine ⟨_, rfl, ?_, hnext⟩
    simp only [hvalue, hnegative]

/-! ### Groups -/

section Groups

variable {opening : Reading Unit c.rest.length} {inside : Reading Expr opening.next.rest.length}
  (haccept : c.accept? (only '(') = some opening) (hallows : d.allowsGroup depth = true)
  (hread : expression d (depth + 1) opening.next = .ok inside)

include haccept hread

/-- Up to the end of its inside, a group is read the same. -/
theorem exists_inside_of_sameStretch {c' next' : Cursor}
    (hinside : Behaves (expression d (depth + 1)) opening.next)
    (h : SameStretch c inside.next c' next') :
    ∃ (opening' : Reading Unit c'.rest.length)
      (inside' : Reading Expr opening'.next.rest.length), c'.accept? (only '(') = some opening' ∧
      expression d (depth + 1) opening'.next = .ok inside' ∧ inside'.value = inside.value ∧
      inside'.next = next' := by
  obtain ⟨passed, hopening⟩ := exists_passes_of_accept? haccept
  obtain ⟨more, hpasses⟩ := hinside.reads inside hread
  obtain ⟨start', hstart, hsame⟩ := h.split hopening hpasses
  obtain ⟨opening', haccept', -, rfl⟩ := hstart.accept?_eq_some haccept
  obtain ⟨inside', hread', hvalue, hnext⟩ := hinside.isLocal inside hread _ _ hsame
  exact ⟨opening', inside', haccept', hread', hvalue, hnext⟩

include hallows

theorem primary_eq_of_closed {closing : Reading Unit inside.next.rest.length}
    (hclosing : inside.next.accept? (only ')') = some closing) :
    primary d depth c = .ok ⟨inside.value, closing.next,
      Nat.lt_trans closing.shorter (opening.shorter_of_next inside)⟩ := by
  rw [primary, haccept]
  simp only [hallows, if_true, hread, hclosing]

theorem primary_eq_of_unclosed (hclosing : inside.next.accept? (only ')') = none) :
    primary d depth c = if d.requireClosing then .error inside.next.skipSpaces.errorHere
      else .ok (inside.next.complete inside.value (opening.shorter_of_next inside)) := by
  rw [primary, haccept]
  simp only [hallows, if_true, hread, hclosing]

variable {passed : List Char} (hpasses : c.Passes passed inside.next)
  (hinside : Behaves (expression d (depth + 1)) opening.next)

include hpasses hinside

theorem primary_behaves_of_closed {closing : Reading Unit inside.next.rest.length}
    (hclosing : inside.next.accept? (only ')') = some closing) : Behaves (primary d depth) c := by
  obtain ⟨more, hclose⟩ := exists_passes_of_accept? hclosing
  refine .of_ok (primary_eq_of_closed haccept hallows hread hclosing) (hpasses.trans hclose) ?_
  intro c' next' hsame
  obtain ⟨middle', hsame, hend⟩ := hsame.split hpasses hclose
  obtain ⟨opening', inside', haccept', hread', hvalue, rfl⟩ :=
    exists_inside_of_sameStretch haccept hread hinside hsame
  obtain ⟨closing', hclosing', -, rfl⟩ := hend.accept?_eq_some hclosing
  exact ⟨_, primary_eq_of_closed haccept' hallows hread' hclosing', hvalue, rfl⟩

theorem primary_behaves_of_unclosed (hclosing : inside.next.accept? (only ')') = none) :
    Behaves (primary d depth) c := by
  have hprimary := primary_eq_of_unclosed haccept hallows hread hclosing
  obtain ⟨blanks, hskip⟩ := inside.next.passes_skipSpaces
  cases hstrict : d.requireClosing with
  | true =>
    simp only [hstrict, if_true] at hprimary
    refine .of_error hprimary ⟨_, _, hpasses.trans hskip, ?_⟩
    exact (position_errorHere _).symm
  | false =>
    simp only [hstrict, Bool.false_eq_true, if_false] at hprimary
    refine .of_ok hprimary (hpasses.trans hskip) ?_
    intro c' next' hsame
    obtain ⟨middle', hsame, hend⟩ := hsame.split hpasses hskip
    obtain ⟨opening', inside', haccept', hread', hvalue, rfl⟩ :=
      exists_inside_of_sameStretch haccept hread hinside hsame
    have hprimary' := primary_eq_of_unclosed haccept' hallows hread'
      (hend.accept?_eq_none hclosing)
    simp only [hstrict, Bool.false_eq_true, if_false] at hprimary'
    exact ⟨_, hprimary', hvalue, hend.skipSpaces_eq⟩

end Groups

theorem primary_behaves_of_group {opening : Reading Unit c.rest.length}
    (haccept : c.accept? (only '(') = some opening) (hallows : d.allowsGroup depth = true)
    (hinside : Behaves (expression d (depth + 1)) opening.next) :
    Behaves (primary d depth) c := by
  obtain ⟨passed, hopening⟩ := exists_passes_of_accept? haccept
  cases hread : expression d (depth + 1) opening.next with
  | error e =>
    have hprimary : primary d depth c = .error e := by
      rw [primary, haccept]
      simp only [hallows, if_true, hread]
    exact .of_error hprimary (hopening.leadsTo (hinside.fails e hread))
  | ok inside =>
    obtain ⟨more, hpasses⟩ := hinside.reads inside hread
    have hpasses := hopening.trans hpasses
    cases hclosing : inside.next.accept? (only ')') with
    | some closing => exact primary_behaves_of_closed haccept hallows hread hpasses hinside hclosing
    | none => exact primary_behaves_of_unclosed haccept hallows hread hpasses hinside hclosing

theorem primary_behaves_of_limit {opening : Reading Unit c.rest.length}
    (haccept : c.accept? (only '(') = some opening) (hallows : ¬ d.allowsGroup depth = true) :
    Behaves (primary d depth) c := by
  have hprimary : primary d depth c = .error (.nestedTooDeep c.skipSpaces.position) := by
    rw [primary, haccept]
    simp only [hallows]
    rfl
  obtain ⟨blanks, hskip⟩ := c.passes_skipSpaces
  exact .of_error hprimary ⟨_, _, hskip, rfl⟩

theorem primary_behaves_of_number (haccept : c.accept? (only '(') = none) :
    Behaves (primary d depth) c := by
  obtain ⟨blanks, hskip⟩ := c.passes_skipSpaces
  cases hread : c.skipSpaces.decimal with
  | error e =>
    have hprimary : primary d depth c = .error e := by
      rw [primary, haccept]
      simp only [hread]
    exact .of_error hprimary ⟨_, _, hskip, (position_of_decimal_eq_error hread).symm⟩
  | ok decimal =>
    have hprimary : primary d depth c = .ok ⟨.number decimal.value, decimal.next,
        Nat.lt_of_lt_of_le decimal.shorter c.length_rest_skipSpaces_le⟩ := by
      rw [primary, haccept]
      simp only [hread]
    obtain ⟨run, hpasses⟩ := passes_of_decimal hread
    refine .of_ok hprimary (hskip.trans hpasses) ?_
    intro c' next' hsame
    obtain ⟨middle', hspaces, hsame⟩ := hsame.split hskip hpasses
    obtain rfl := hspaces.skipSpaces_eq
    obtain ⟨decimal', hread', hvalue, hnext⟩ := hsame.decimal_eq_ok hread
    rw [primary, hspaces.accept?_eq_none haccept]
    simp only [hread']
    exact ⟨_, rfl, congrArg Expr.number hvalue, hnext⟩

/-! ### The whole reader -/

theorem reader_behaves (d : Dialect) :
    (∀ depth c, Behaves (expression d depth) c) ∧
    (∀ (bound depth : Nat) left (c : Cursor) (_ : c.rest.length < bound),
      LoopBehaves (@sum · d depth) left c) ∧
    (∀ depth c, Behaves (term d depth) c) ∧
    (∀ (bound depth : Nat) left (c : Cursor) (_ : c.rest.length < bound),
      LoopBehaves (@product · d depth) left c) ∧
    (∀ depth c, Behaves (factor d depth) c) ∧ ∀ depth c, Behaves (primary d depth) c := by
  apply expression.mutual_induct d
  case case1 =>
    intro depth c e hterm ih
    refine (startsLoop_expression d depth).behaves ih fun first hfirst => ?_
    cases hterm.symm.trans hfirst
  case case2 =>
    intro depth c first hterm ihterm ihsum
    refine (startsLoop_expression d depth).behaves ihterm fun other hother => ?_
    cases hterm.symm.trans hother
    exact ihsum
  case case3 =>
    intro bound depth left c shorter haccept
    exact (isLoop_sum d depth).behaves_of_none haccept
  case case4 =>
    intro bound depth left c shorter op haccept e hterm ih
    exact (isLoop_sum d depth).behaves_of_error haccept hterm (ih.fails e hterm)
  case case5 =>
    intro bound depth left c shorter op haccept right hterm ihterm ihsum
    exact (isLoop_sum d depth).behaves_of_ok haccept hterm ihterm ihsum
  case case6 =>
    intro depth c e hfactor ih
    refine (startsLoop_term d depth).behaves ih fun first hfirst => ?_
    cases hfactor.symm.trans hfirst
  case case7 =>
    intro depth c first hfactor ihfactor ihproduct
    refine (startsLoop_term d depth).behaves ihfactor fun other hother => ?_
    cases hfactor.symm.trans hother
    exact ihproduct
  case case8 =>
    intro bound depth left c shorter haccept
    exact (isLoop_product d depth).behaves_of_none haccept
  case case9 =>
    intro bound depth left c shorter op haccept e hfactor ih
    exact (isLoop_product d depth).behaves_of_error haccept hfactor (ih.fails e hfactor)
  case case10 =>
    intro bound depth left c shorter op haccept right hfactor ihfactor ihproduct
    exact (isLoop_product d depth).behaves_of_ok haccept hfactor ihfactor ihproduct
  case case11 =>
    intro depth c e hprimary ih
    exact factor_behaves ih
  case case12 =>
    intro depth c operand hprimary ih
    exact factor_behaves ih
  case case13 =>
    intro depth c opening haccept hallows e hinside ih
    exact primary_behaves_of_group haccept hallows ih
  case case14 =>
    intro depth c opening haccept hallows inside hinside closing hclosing ih
    exact primary_behaves_of_group haccept hallows ih
  case case15 =>
    intro depth c opening haccept hallows inside hinside hclosing hstrict ih
    exact primary_behaves_of_group haccept hallows ih
  case case16 =>
    intro depth c opening haccept hallows inside hinside hclosing hstrict ih
    exact primary_behaves_of_group haccept hallows ih
  case case17 =>
    intro depth c opening haccept hallows
    exact primary_behaves_of_limit haccept hallows
  case case18 =>
    intro depth c haccept e hdecimal
    exact primary_behaves_of_number haccept
  case case19 =>
    intro depth c haccept decimal hdecimal
    exact primary_behaves_of_number haccept

/-! ### Chains of calls -/

/-- The characters left count most, and the level among calls that have as many. -/
def Call.measure : Call → Nat
  | .expression _ c => 5 * c.rest.length + 4
  | .sum _ _ c => 5 * c.rest.length + 3
  | .term _ c => 5 * c.rest.length + 2
  | .product _ _ c => 5 * c.rest.length + 1
  | .factor _ c => 5 * c.rest.length + 1
  | .primary _ c => 5 * c.rest.length

theorem Calls.measure_lt {call callee : Call} (h : Calls d call callee) :
    callee.measure < call.measure := by
  cases h with
  | firstTerm depth c => exact Nat.add_lt_add_left (by decide) _
  | @terms depth c first _ =>
    have hshorter := first.shorter
    simp only [Call.measure]
    omega
  | @nextTerm depth c operator _ _ =>
    have hshorter := operator.shorter
    simp only [Call.measure]
    omega
  | @moreTerms depth c operator right _ _ _ =>
    have hshorter := operator.shorter_of_next right
    simp only [Call.measure]
    omega
  | firstFactor depth c => exact Nat.add_lt_add_left (by decide) _
  | @factors depth c first _ =>
    have hshorter := first.shorter
    simp only [Call.measure]
    omega
  | @nextFactor depth c operator _ _ =>
    have hshorter := operator.shorter
    simp only [Call.measure]
    omega
  | @moreFactors depth c operator right _ _ _ =>
    have hshorter := operator.shorter_of_next right
    simp only [Call.measure]
    omega
  | operand depth c =>
    have hsigns := length_rest_signs_le false c
    simp only [Call.measure]
    omega
  | @inside depth c opening _ _ =>
    have hshorter := opening.shorter
    simp only [Call.measure]
    omega

/-- No chain of calls goes on for ever. -/
theorem wellFounded_calls (d : Dialect) : WellFounded fun callee call => Calls d call callee :=
  Subrelation.wf Calls.measure_lt (measure Call.measure).wf

/-! ### Places of a text -/

/-- The rule of a level. -/
def rule (d : Dialect) (depth : Nat) : Level → Rule Expr
  | .expression => expression d depth
  | .term => term d depth
  | .factor => factor d depth
  | .primary => primary d depth

theorem rule_behaves (d : Dialect) (depth : Nat) (level : Level) (c : Cursor) :
    Behaves (rule d depth level) c := by
  obtain ⟨hexpression, -, hterm, -, hfactor, hprimary⟩ := reader_behaves d
  cases level with
  | expression => exact hexpression depth c
  | term => exact hterm depth c
  | factor => exact hfactor depth c
  | primary => exact hprimary depth c

/-- The reading goes on at a later place of the text, or the error is at this place or a later
    one. -/
inductive Progresses (text : List Char) (place : Nat) {bound : Nat} :
    Except SyntaxError (Reading Expr bound) → Prop where
  | reads {reading : Reading Expr bound} : place < reading.next.position →
      reading.next.position ≤ text.length →
      reading.next.rest = text.drop reading.next.position → Progresses text place (.ok reading)
  | fails {e : SyntaxError} : place ≤ e.position → e.position ≤ text.length →
      Progresses text place (.error e)

theorem Behaves.progresses {rule : Rule Expr} {before rest : List Char}
    (h : Behaves rule ⟨before.length, rest⟩) :
    Progresses (before ++ rest) before.length (rule ⟨before.length, rest⟩) := by
  have htext : (before ++ rest).length = before.length + rest.length := List.length_append
  cases hread : rule ⟨before.length, rest⟩ with
  | ok reading =>
    have hstart : (ofList (before ++ rest)).Passes before ⟨before.length, rest⟩ :=
      ⟨rfl, (Nat.zero_add _).symm⟩
    obtain ⟨passed, hpasses⟩ := h.reads reading hread
    have htotal : reading.next.position + reading.next.rest.length = before.length + rest.length :=
      hpasses.position_add_length
    have hshorter : reading.next.rest.length < rest.length := reading.shorter
    exact .reads (by omega) (by omega) (hstart.trans hpasses).rest_eq_drop
  | error e =>
    obtain ⟨passed, next, hpasses, hposition⟩ := h.fails e hread
    have htotal : next.position + next.rest.length = before.length + rest.length :=
      hpasses.position_add_length
    have hle : before.length ≤ next.position := hpasses.position_le
    exact .fails (by omega) (by omega)

/-- Behind an expression stands neither a space nor an operator. -/
theorem not_mem_operators_of_expression {reading : Reading Expr c.rest.length}
    (h : expression d depth c = .ok reading) {char : Char}
    (hchar : reading.next.current = some char) : char ∉ [' ', '+', '-', '*', '/'] := by
  have hfollows := (Scan.reader_follows d).1 depth c (List.replicate depth .start)
    List.length_replicate
  rw [h] at hfollows
  obtain ⟨-, hterm, hsum⟩ := hfollows
  obtain ⟨hspace, hfactor⟩ := hterm char hchar
  obtain ⟨-, hadditive⟩ := hsum char hchar
  simp only [List.mem_cons, List.not_mem_nil, or_false]
  rintro (rfl | rfl | rfl | rfl | rfl)
  · exact hspace rfl
  · cases hadditive
  · cases hadditive
  · cases hfactor
  · cases hfactor

/-- At every place of every text, inside any number of groups, the rules come to an end and stay
    within the text; one that succeeds has moved on, and the error of one that fails does not lie
    before its start.  An expression ends where neither a space nor an operator follows, and what
    it is and how long it is depends on its characters and the one that follows them. -/
theorem rules_progress_locally (d : Dialect) :
    (WellFounded fun callee call => Calls d call callee) ∧
    ∀ (depth : Nat) (before rest : List Char),
      (∀ level, Progresses (before ++ rest) before.length
        (rule d depth level ⟨before.length, rest⟩)) ∧
      ∀ reading, expression d depth ⟨before.length, rest⟩ = .ok reading →
        (∀ char, reading.next.current = some char → char ∉ [' ', '+', '-', '*', '/']) ∧
        ∀ before' rest' : List Char,
          (∀ i ≤ reading.next.position - before.length, rest'[i]? = rest[i]?) →
          ∃ reading', expression d depth ⟨before'.length, rest'⟩ = .ok reading' ∧
            reading'.value = reading.value ∧
            reading'.next.position - before'.length = reading.next.position - before.length := by
  refine ⟨wellFounded_calls d, fun depth before rest => ⟨fun level => ?_, fun reading hread => ?_⟩⟩
  · exact (rule_behaves d depth level _).progresses
  · have hbehaves := (reader_behaves d).1 depth ⟨before.length, rest⟩
    refine ⟨fun char => not_mem_operators_of_expression hread, ?_⟩
    intro before' rest' hagree
    obtain ⟨passed, hpasses⟩ := hbehaves.reads reading hread
    have hlength : reading.next.position - before.length = passed.length := by
      rw [hpasses.position_eq, Nat.add_sub_cancel_left]
    rw [hlength] at hagree ⊢
    obtain ⟨reading', hread', hvalue, hnext⟩ :=
      hbehaves.isLocal reading hread _ _ (sameStretch_of_getElem? hpasses before'.length hagree)
    refine ⟨reading', hread', hvalue, ?_⟩
    rw [hnext, Nat.add_sub_cancel_left]

end Expr

end DeskCalculator
