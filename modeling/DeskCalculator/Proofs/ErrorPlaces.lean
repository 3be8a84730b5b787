import DeskCalculator.Proofs.Policies
import DeskCalculator.Proofs.ViablePrefix

/-!
# Errors that move with their text

What is put into a text moves everything behind it, and the errors there with it.  If it makes
no difference to the reading otherwise, the outcome is the same up to that move.

`Scan.run_replace` says this for the machine of one pass: a piece of a text can be exchanged
for another if both take the machine to states from which the rest of the text is read alike.
The errors in front of the piece stay where they are, those behind it move by the difference in
length, and there are none inside.  The machine points back from where it stands only while it
is within a number (`Scan.lookback`), so the piece must not leave it there.
-/

namespace DeskCalculator

/-! ### Moving an error -/

/-- The same error at another place. -/
def SyntaxError.relocate (move : Nat → Nat) : SyntaxError → SyntaxError
  | unexpectedChar char position => .unexpectedChar char (move position)
  | unexpectedEnd position => .unexpectedEnd (move position)
  | malformedNumber run position => .malformedNumber run (move position)
  | nestedTooDeep position => .nestedTooDeep (move position)

/-- The same error at another place, if it has a place. -/
def EvalError.relocate (move : Nat → Nat) : EvalError → EvalError
  | invalid cause => .invalid (cause.relocate move)
  | notFinite result => .notFinite result

/-- Where a place of a text comes to lie when the piece that starts at `start` and is `old`
    characters long is exchanged for one of `new` characters.  Inside the piece there is no
    place to speak of. -/
def movedPlace (start old new position : Nat) : Nat :=
  if start ≤ position then position - old + new else position

theorem SyntaxError.relocate_congr {move move' : Nat → Nat} {e : SyntaxError}
    (h : move e.position = move' e.position) : e.relocate move = e.relocate move' := by
  cases e <;> simpa [relocate, position] using h

theorem SyntaxError.relocate_relocate (move move' : Nat → Nat) (e : SyntaxError) :
    (e.relocate move).relocate move' = e.relocate (move' ∘ move) := by
  cases e <;> rfl

theorem SyntaxError.relocate_eq_self {move : Nat → Nat} {e : SyntaxError}
    (h : move e.position = e.position) : e.relocate move = e := by
  cases e <;> simpa [relocate, position] using h

theorem EvalError.relocate_relocate (move move' : Nat → Nat) (e : EvalError) :
    (e.relocate move).relocate move' = e.relocate (move' ∘ move) := by
  cases e with
  | invalid cause => simp only [relocate, SyntaxError.relocate_relocate]
  | notFinite result => rfl

theorem EvalError.relocate_id (e : EvalError) : e.relocate id = e := by
  cases e with
  | invalid cause => exact congrArg invalid (SyntaxError.relocate_eq_self rfl)
  | notFinite result => rfl

section

variable {α ε ε' : Type} (f : ε → ε')

theorem mapError_ok (a : α) : (Except.ok a : Except ε α).mapError f = .ok a := rfl

theorem mapError_error (e : ε) : (Except.error e : Except ε α).mapError f = .error (f e) := rfl

end

theorem mapError_relocate_relocate (outcome : Except EvalError Binary64)
    (move move' : Nat → Nat) :
    (outcome.mapError (EvalError.relocate move)).mapError (EvalError.relocate move')
      = outcome.mapError (EvalError.relocate (move' ∘ move)) := by
  cases outcome with
  | error e => simp only [mapError_error, EvalError.relocate_relocate]
  | ok x => rfl

theorem conclude_mapError (requireFinite : Bool) (move : Nat → Nat)
    (reading : Except SyntaxError Expr) :
    conclude requireFinite (reading.mapError (.relocate move))
      = (conclude requireFinite reading).mapError (.relocate move) := by
  cases reading with
  | error e => rfl
  | ok expr =>
    simp only [mapError_ok, conclude]
    split
    · rfl
    · rfl

/-- A text that reads like another, but for the places of its errors, comes to the same. -/
theorem evaluateWith_eq_mapError {s : Settings} {text text' : String} {move : Nat → Nat}
    (h : Scan.start.run s.dialect 0 text'.toList
      = (Scan.start.run s.dialect 0 text.toList).mapError (.relocate move)) :
    evaluateWith s text' = (evaluateWith s text).mapError (.relocate move) := by
  rw [evaluateWith_eq_conclude, evaluateWith_eq_conclude, Scan.read_eq_run, Scan.read_eq_run, h]
  exact conclude_mapError s.requireFinite move _

namespace Scan

variable {d : Dialect} {s s' t : Scan}

/-! ### How far back an error can lie -/

/-- How many characters back from where the machine stands it may put an error: a number is
    blamed from its first digit on. -/
def lookback : Scan → Nat
  | operand _ _ => 0
  | number _ _ run => run.length
  | operator _ _ _ => 0

theorem Step.lookback_le {char : Char} (h : Step d s char s') :
    s'.lookback ≤ s.lookback + 1 := by
  cases h with
  | digit groups pending hdigit => simp [lookback]
  | numeral groups pending run hchar => simp [lookback]
  | _ => simp [lookback]

theorem position_reject (s : Scan) (position : Nat) (char : Char) :
    (s.reject position char).position = position ∨
      (s.reject position char).position = position - s.lookback := by
  cases s with
  | operand groups pending =>
    left
    simp only [reject]
    split
    · rfl
    · rfl
  | number groups pending run =>
    simp only [reject]
    split
    · exact .inr rfl
    · exact .inl rfl
  | operator groups sum product => exact .inl rfl

theorem position_finish {position : Nat} {e : SyntaxError} (h : s.finish d position = .error e) :
    e.position = position ∨ e.position = position - s.lookback := by
  cases hs : s.ruined with
  | false =>
    left
    rw [finish_eq_error hs h]
    rfl
  | true =>
    obtain ⟨groups, pending, run, rfl, hrun⟩ := eq_number_of_ruined hs
    simp only [finish, hrun, Except.error.injEq] at h
    subst h
    exact .inr rfl

/-- An error lies no further back than the number that is being read. -/
theorem le_position_of_run {position : Nat} {text : List Char} {e : SyntaxError}
    (h : s.run d position text = .error e) : position - s.lookback ≤ e.position := by
  induction text generalizing s position with
  | nil =>
    rcases position_finish h with hplace | hplace
    · omega
    · omega
  | cons char text ih =>
    cases hnext : s.next? d char with
    | none =>
      simp only [Scan.run, hnext, Except.error.injEq] at h
      subst h
      rcases s.position_reject position char with hplace | hplace
      · omega
      · omega
    | some next =>
      simp only [Scan.run, hnext] at h
      have hback := (next?_eq_some_iff.mp hnext).lookback_le
      have hplace := ih h
      omega

/-! ### The same text further on -/

theorem reject_add {position : Nat} (h : s.lookback ≤ position) (count : Nat) (char : Char) :
    s.reject (position + count) char = (s.reject position char).relocate (· + count) := by
  cases s with
  | operand groups pending =>
    simp only [reject]
    split
    · rfl
    · rfl
  | number groups pending run =>
    have hback : run.length ≤ position := h
    simp only [reject]
    split
    · simp only [SyntaxError.relocate, Nat.sub_add_comm hback]
    · rfl
  | operator groups sum product => rfl

theorem finishOperator_add (groups : List Pending) (value : Expr) (position count : Nat) :
    finishOperator d groups value (position + count)
      = (finishOperator d groups value position).mapError (.relocate (· + count)) := by
  unfold finishOperator
  split
  · rfl
  · rfl

theorem finish_add {position : Nat} (h : s.lookback ≤ position) (count : Nat) :
    s.finish d (position + count) = (s.finish d position).mapError (.relocate (· + count)) := by
  cases s with
  | operand groups pending => rfl
  | number groups pending run =>
    have hback : run.length ≤ position := h
    simp only [finish]
    split
    · simp only [mapError_error, SyntaxError.relocate, Nat.sub_add_comm hback]
    · exact finishOperator_add _ _ _ _
  | operator groups sum product => exact finishOperator_add _ _ _ _

/-- A text that is read further on is read alike, with its errors as much further on. -/
theorem run_add {position : Nat} (h : s.lookback ≤ position) (count : Nat) (text : List Char) :
    s.run d (position + count) text
      = (s.run d position text).mapError (.relocate (· + count)) := by
  induction text generalizing s position with
  | nil => exact finish_add h count
  | cons char text ih =>
    cases hnext : s.next? d char with
    | none => simp only [Scan.run, hnext, reject_add h, mapError_error]
    | some next =>
      have hback := (next?_eq_some_iff.mp hnext).lookback_le
      have hnextBack : next.lookback ≤ position + 1 := by omega
      simp only [Scan.run, hnext, Nat.add_right_comm position count 1]
      exact ih hnextBack

/-! ### Exchanging a piece of a text -/

/-- A text that cannot be passed holds a first character at which the machine is stuck. -/
theorem exists_stuck_of_feed_eq_none {text : List Char} (h : s.feed d text = none) :
    ∃ before char after mid, text = before ++ char :: after ∧ s.feed d before = some mid ∧
      mid.next? d char = none := by
  induction text generalizing s with
  | nil => cases h
  | cons char text ih =>
    cases hnext : s.next? d char with
    | none => exact ⟨[], char, text, s, rfl, feed_nil s, hnext⟩
    | some next =>
      rw [feed_cons, hnext, Option.bind_some] at h
      obtain ⟨before, char', after, mid, rfl, hbefore, hstuck⟩ := ih h
      refine ⟨char :: before, char', after, mid, rfl, ?_, hstuck⟩
      exact feed_cons_eq_some_iff.mpr ⟨next, hnext, hbefore⟩

/-- A beginning that cannot be passed fails at a place within it, whatever follows. -/
theorem exists_error_of_feed_eq_none {first : List Char} (h : start.feed d first = none) :
    ∃ e, e.position < first.length ∧ ∀ rest, start.run d 0 (first ++ rest) = .error e := by
  obtain ⟨before, char, after, mid, rfl, hbefore, hstuck⟩ := exists_stuck_of_feed_eq_none h
  refine ⟨mid.reject before.length char, ?_, ?_⟩
  · simp only [List.length_append, List.length_cons]
    rcases mid.position_reject before.length char with hplace | hplace
    · omega
    · omega
  · intro rest
    rw [List.append_assoc, List.cons_append]
    exact run_reject hbefore hstuck (after ++ rest)

/-- Behind a beginning that cannot be passed everything may be exchanged. -/
theorem run_replace_of_feed_eq_none {first : List Char} (h : start.feed d first = none)
    (old new : Nat) (rest rest' : List Char) :
    start.run d 0 (first ++ rest')
      = (start.run d 0 (first ++ rest)).mapError (.relocate (movedPlace first.length old new)) := by
  obtain ⟨e, hplace, he⟩ := exists_error_of_feed_eq_none h
  have hstays : movedPlace first.length old new e.position = e.position :=
    if_neg (Nat.not_le.mpr hplace)
  rw [he, he, mapError_error, SyntaxError.relocate_eq_self hstays]

/-- A piece of a text may be exchanged for another that leaves the rest to be read alike. -/
theorem run_replace {first old new rest : List Char} (hfirst : start.feed d first = some s)
    (hold : s.feed d old = some t) (hnew : s.feed d new = some s')
    (hback : s'.lookback = 0)
    (hrest : ∀ position, t.run d position rest = s'.run d position rest) :
    start.run d 0 (first ++ new ++ rest)
      = (start.run d 0 (first ++ old ++ rest)).mapError
          (.relocate (movedPlace first.length old.length new.length)) := by
  rw [run_append ((feed_append_of_eq_some hfirst new).trans hnew),
    run_append ((feed_append_of_eq_some hfirst old).trans hold), hrest]
  simp only [Nat.zero_add, List.length_append]
  have hplace : s'.lookback ≤ first.length := by omega
  rw [run_add hplace, run_add hplace]
  cases hrun : s'.run d first.length rest with
  | ok expr => rfl
  | error e =>
    have hbehind := le_position_of_run hrun
    simp only [mapError_error, SyntaxError.relocate_relocate]
    refine congrArg Except.error (SyntaxError.relocate_congr ?_)
    simp only [movedPlace, Function.comp_apply]
    rw [if_pos (by omega)]
    omega

end Scan

end DeskCalculator
