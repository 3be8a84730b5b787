import DeskCalculator.Proofs.OnePassSteps

/-!
# Passes that hold the same values

The machine looks at characters and at the heights of its stacks, never at the
expressions it has built.  Two states that differ only in how their values are written as
expressions take the same steps (`Scan.Alike.step`), so whatever text follows, both passes
fail or both come to the same value (`Scan.Alike.run`).
-/

namespace DeskCalculator

/-! ### Values of what waits -/

/-- An operand that waits on the left, up to its value. -/
def leftValue (left : Option (Expr × Operator)) : Option (Binary64 × Operator) :=
  left.map fun waiting => (waiting.1.value, waiting.2)

theorem Expr.value_join_congr {operand operand' : Expr} {left left' : Option (Expr × Operator)}
    (hoperand : operand.value = operand'.value) (hleft : leftValue left = leftValue left') :
    (operand.join left).value = (operand'.join left').value := by
  cases left with
  | none =>
    cases left' with
    | none => exact hoperand
    | some waiting' => cases hleft
  | some waiting =>
    cases left' with
    | none => cases hleft
    | some waiting' =>
      obtain ⟨hvalue, hoperator⟩ := Prod.mk.inj (Option.some.inj hleft)
      simp only [Expr.join, Expr.value, hoperand, hvalue, hoperator]

/-- What stands in front of an operand, up to values. -/
def Pending.values (p : Pending) :
    Option (Binary64 × Operator) × Option (Binary64 × Operator) × Bool :=
  (leftValue p.sum, leftValue p.product, p.negative)

theorem Pending.values_eq_iff {p q : Pending} : p.values = q.values ↔
    leftValue p.sum = leftValue q.sum ∧ leftValue p.product = leftValue q.product ∧
      p.negative = q.negative := by
  simp only [Pending.values, Prod.mk.injEq]

theorem Pending.value_term_congr {p q : Pending} (h : p.values = q.values)
    {operand operand' : Expr} (hoperand : operand.value = operand'.value) :
    (p.term operand).value = (q.term operand').value := by
  obtain ⟨-, hproduct, hnegative⟩ := Pending.values_eq_iff.mp h
  refine Expr.value_join_congr ?_ hproduct
  rw [Expr.value_negateIf, Expr.value_negateIf, hnegative, hoperand]

namespace Scan

/-! ### States that hold the same values -/

/-- Two states differ at most in how their values are written. -/
inductive Alike : Scan → Scan → Prop where
  | operand {groups groups' : List Pending} {pending pending' : Pending} :
      groups.map Pending.values = groups'.map Pending.values → pending.values = pending'.values →
      Alike (operand groups pending) (operand groups' pending')
  | number {groups groups' : List Pending} {pending pending' : Pending} (run : List Char) :
      groups.map Pending.values = groups'.map Pending.values → pending.values = pending'.values →
      Alike (number groups pending run) (number groups' pending' run)
  | operator {groups groups' : List Pending} {sum sum' : Option (Expr × Operator)}
      {product product' : Expr} :
      groups.map Pending.values = groups'.map Pending.values → leftValue sum = leftValue sum' →
      product.value = product'.value →
      Alike (operator groups sum product) (operator groups' sum' product')

variable {d : Dialect} {s t s' : Scan}

theorem Alike.symm (h : Alike s t) : Alike t s := by
  cases h with
  | operand hgroups hpending => exact .operand hgroups.symm hpending.symm
  | number run hgroups hpending => exact .number run hgroups.symm hpending.symm
  | operator hgroups hsum hproduct => exact .operator hgroups.symm hsum.symm hproduct.symm

theorem Alike.settle {groups : List Pending} {sum : Option (Expr × Operator)} {product : Expr}
    (h : Alike s t) (hs : s.settle = some (.operator groups sum product)) :
    ∃ groups' sum' product', t.settle = some (.operator groups' sum' product') ∧
      groups.map Pending.values = groups'.map Pending.values ∧ leftValue sum = leftValue sum' ∧
      product.value = product'.value := by
  cases h with
  | operand hgroups hpending => cases hs
  | @number _ groups' _ pending' run hgroups hpending =>
    obtain ⟨decimal, hrun, hs⟩ := Option.map_eq_some_iff.mp hs
    cases hs
    refine ⟨groups', _, _, settle_number hrun groups' pending', hgroups, ?_, ?_⟩
    · exact (Pending.values_eq_iff.mp hpending).1
    · exact Pending.value_term_congr hpending rfl
  | operator hgroups hsum hproduct =>
    cases hs
    exact ⟨_, _, _, rfl, hgroups, hsum, hproduct⟩

theorem length_eq_of_map_values {groups groups' : List Pending}
    (h : groups.map Pending.values = groups'.map Pending.values) :
    groups.length = groups'.length := by
  simpa only [List.length_map] using congrArg List.length h

/-- States that hold the same values take the same steps. -/
theorem Alike.step {char : Char} (h : Alike s t) (hstep : Step d s char s') :
    ∃ t', Step d t char t' ∧ Alike s' t' := by
  cases hstep with
  | blank groups pending =>
    cases h with
    | operand hgroups hpending => exact ⟨_, .blank _ _, .operand hgroups hpending⟩
  | sign groups pending hsign =>
    cases h with
    | operand hgroups hpending =>
      refine ⟨_, .sign _ _ hsign, .operand hgroups ?_⟩
      rw [Pending.values_eq_iff] at hpending ⊢
      obtain ⟨hsum, hproduct, hnegative⟩ := hpending
      exact ⟨hsum, hproduct, congrArg (· ^^ _) hnegative⟩
  | opening pending hallows =>
    cases h with
    | operand hgroups hpending =>
      rw [length_eq_of_map_values hgroups] at hallows
      refine ⟨_, .opening _ hallows, .operand ?_ rfl⟩
      rw [List.map_cons, List.map_cons, hgroups, hpending]
  | digit groups pending hdigit =>
    cases h with
    | operand hgroups hpending =>
      exact ⟨_, .digit _ _ hdigit, .number _ hgroups hpending⟩
  | numeral groups pending run hchar =>
    cases h with
    | number run hgroups hpending =>
      exact ⟨_, .numeral _ _ run hchar, .number _ hgroups hpending⟩
  | blankBehind hsettle =>
    obtain ⟨groups', sum', product', hsettle', hgroups, hsum, hproduct⟩ := h.settle hsettle
    exact ⟨_, .blankBehind hsettle', .operator hgroups hsum hproduct⟩
  | @additive _ _ _ _ _ op hsettle hop =>
    obtain ⟨groups', sum', product', hsettle', hgroups, hsum, hproduct⟩ := h.settle hsettle
    refine ⟨_, .additive hsettle' hop, .operand hgroups (Pending.values_eq_iff.mpr ⟨?_, rfl, rfl⟩)⟩
    simp only [leftValue, Option.map_some, Expr.value_join_congr hproduct hsum]
  | multiplicative hsettle hop =>
    obtain ⟨groups', sum', product', hsettle', hgroups, hsum, hproduct⟩ := h.settle hsettle
    refine ⟨_, .multiplicative hsettle' hop,
      .operand hgroups (Pending.values_eq_iff.mpr ⟨hsum, ?_, rfl⟩)⟩
    simp only [leftValue, Option.map_some, hproduct]
  | closing hsettle =>
    obtain ⟨groups', sum', product', hsettle', hgroups, hsum, hproduct⟩ := h.settle hsettle
    cases groups' with
    | nil => cases hgroups
    | cons outer' groups' =>
      obtain ⟨houter, hgroups⟩ := List.cons.inj hgroups
      refine ⟨_, .closing hsettle', .operator hgroups (Pending.values_eq_iff.mp houter).1 ?_⟩
      exact Pending.value_term_congr houter (Expr.value_join_congr hproduct hsum)

/-! ### Whole passes -/

theorem value_closeAll_congr {groups groups' : List Pending}
    (hgroups : groups.map Pending.values = groups'.map Pending.values) {inside inside' : Expr}
    (hinside : inside.value = inside'.value) :
    (closeAll inside groups).value = (closeAll inside' groups').value := by
  induction groups generalizing groups' inside inside' with
  | nil =>
    cases groups' with
    | nil => exact hinside
    | cons outer' groups' => cases hgroups
  | cons outer groups ih =>
    cases groups' with
    | nil => cases hgroups
    | cons outer' groups' =>
      obtain ⟨houter, hgroups⟩ := List.cons.inj hgroups
      have hterm := Pending.value_term_congr houter hinside
      exact ih hgroups (Expr.value_join_congr hterm (Pending.values_eq_iff.mp houter).1)

/-- The value that a reading comes to, if it succeeds. -/
def readValue (outcome : Except SyntaxError Expr) : Option Binary64 :=
  outcome.toOption.map Expr.value

theorem readValue_finishOperator {groups groups' : List Pending}
    (hgroups : groups.map Pending.values = groups'.map Pending.values) {value value' : Expr}
    (hvalue : value.value = value'.value) (position position' : Nat) :
    readValue (finishOperator d groups value position)
      = readValue (finishOperator d groups' value' position') := by
  have hempty : groups.isEmpty = groups'.isEmpty := by
    rw [Bool.eq_iff_iff, List.isEmpty_iff_length_eq_zero, List.isEmpty_iff_length_eq_zero,
      length_eq_of_map_values hgroups]
  unfold finishOperator
  rw [hempty]
  split
  · rfl
  · exact congrArg some (value_closeAll_congr hgroups hvalue)

theorem readValue_finish_of_settle_eq_none (h : s.settle = none) (position : Nat) :
    readValue (s.finish d position) = none := by
  cases s with
  | operand groups pending => rfl
  | number groups pending run =>
    have hrun : Decimal.ofChars? run = none := Option.map_eq_none_iff.mp h
    simp only [finish, hrun]
    rfl
  | operator groups sum product => cases h

theorem Alike.finish (h : Alike s t) (position position' : Nat) :
    readValue (s.finish d position) = readValue (t.finish d position') := by
  cases hs : s.settle with
  | none =>
    have ht : t.settle = none := by
      refine Option.eq_none_iff_forall_ne_some.mpr fun t' ht => ?_
      obtain ⟨groups, sum, product, rfl⟩ := settle_eq_operator ht
      obtain ⟨_, _, _, hs', -⟩ := h.symm.settle ht
      rw [hs] at hs'
      cases hs'
    rw [readValue_finish_of_settle_eq_none hs, readValue_finish_of_settle_eq_none ht]
  | some s' =>
    obtain ⟨groups, sum, product, rfl⟩ := settle_eq_operator hs
    obtain ⟨groups', sum', product', ht, hgroups, hsum, hproduct⟩ := h.settle hs
    rw [finish_of_settle hs, finish_of_settle ht]
    exact readValue_finishOperator hgroups (Expr.value_join_congr hproduct hsum) _ _

/-- Whatever follows, both passes fail or both come to the same value. -/
theorem Alike.run (h : Alike s t) (position position' : Nat) (text : List Char) :
    readValue (s.run d position text) = readValue (t.run d position' text) := by
  induction text generalizing s t position position' with
  | nil => exact h.finish position position'
  | cons char text ih =>
    simp only [Scan.run]
    cases hs : s.next? d char with
    | none =>
      cases ht : t.next? d char with
      | none => rfl
      | some t' =>
        obtain ⟨s', hstep, -⟩ := h.symm.step (next?_eq_some_iff.mp ht)
        rw [hstep.next?] at hs
        cases hs
    | some s' =>
      obtain ⟨t', hstep, halike⟩ := h.step (next?_eq_some_iff.mp hs)
      rw [hstep.next?]
      exact ih halike _ _

end Scan

end DeskCalculator
