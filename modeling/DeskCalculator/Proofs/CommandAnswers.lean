import DeskCalculator.Proofs.ErrorFlag
import DeskCalculator.Proofs.OptionsFirst
import DeskCalculator.Proofs.SessionTyping

/-!
# The command answers as the keys do

A call with expressions writes a line for each: its value, or an error.  Whoever types the
expression and `=` on a calculator with the same settings reads the same on the display, and
the call counts the expression as failed exactly if that calculator is in error
(`answer_agrees_with_keys`).

The two ways have the evaluation in common and nothing else.  Each comes down to its outcome:
`Answer.line_of_ok`, `Answer.line_of_error` and `Answer.succeeds_iff` on this side,
`type_append_equals` on that.
-/

namespace DeskCalculator

variable {r : Settings} {expression : String}

/-! ### One line -/

namespace Answer

theorem line_of_ok {x : Binary64} (h : evaluateWith r expression = .ok x) :
    line r expression = x.text := by
  unfold line
  rw [h]

theorem line_of_error {e : EvalError} (h : evaluateWith r expression = .error e) :
    line r expression = errorText := by
  unfold line
  rw [h]

theorem succeeds_iff : succeeds r expression = true ↔ ∃ x, evaluateWith r expression = .ok x := by
  unfold succeeds
  cases evaluateWith r expression with
  | ok x => exact iff_of_true rfl ⟨x, rfl⟩
  | error e => exact iff_of_false nofun nofun

theorem isLegible_line (r : Settings) (expression : String) : IsLegible (line r expression) := by
  cases h : evaluateWith r expression with
  | ok x =>
    rw [line_of_ok h]
    exact isLegible_text x
  | error e =>
    rw [line_of_error h]
    exact isLegible_errorText

end Answer

/-- A line answers an expression: with its value, or with an error if it has none. -/
def Answers (r : Settings) (expression line : String) : Prop :=
  (∃ x, evaluateWith r expression = .ok x ∧ line = x.text) ∨
    ∃ e, evaluateWith r expression = .error e ∧ line = errorText

theorem answers_line (r : Settings) (expression : String) :
    Answers r expression (Answer.line r expression) := by
  cases h : evaluateWith r expression with
  | ok x => exact .inl ⟨x, h, Answer.line_of_ok h⟩
  | error e => exact .inr ⟨e, h, Answer.line_of_error h⟩

/-! ### The same by keys -/

namespace Calculator

theorem type_equals_new (htyped : ∀ char ∈ expression.toList, Key.isInputChar char = true) :
    (new r).type (expression ++ "=") = (new r).showOutcome (evaluateWith r expression) := by
  rw [type_append_equals _ htyped]
  show (new r).showOutcome (evaluateWith r ("" ++ expression)) = _
  rw [String.empty_append]

theorem display_type_equals (htyped : ∀ char ∈ expression.toList, Key.isInputChar char = true) :
    ((new r).type (expression ++ "=")).display = Answer.line r expression := by
  rw [type_equals_new htyped]
  cases h : evaluateWith r expression with
  | ok x =>
    rw [Answer.line_of_ok h]
    rfl
  | error e =>
    rw [Answer.line_of_error h]
    rfl

theorem inError_type_equals (htyped : ∀ char ∈ expression.toList, Key.isInputChar char = true) :
    ((new r).type (expression ++ "=")).inError = true ↔
      ∃ e, evaluateWith r expression = .error e := by
  rw [type_equals_new htyped]
  cases h : evaluateWith r expression with
  | ok x =>
    have hfine : ((new r).showResult x).inError = false := inError_eq_false_of_display_eq rfl
    refine iff_of_false ?_ nofun
    intro herror
    exact Bool.false_ne_true (hfine.symm.trans herror)
  | error e => exact iff_of_true rfl ⟨e, rfl⟩

end Calculator

/-! ### All lines -/

theorem ofExpressions_status_eq_zero_iff (r : Settings) (expressions : List String) :
    (Answer.ofExpressions r expressions).status = 0 ↔
      ∀ expression ∈ expressions, ∃ x, evaluateWith r expression = .ok x := by
  have hall : expressions.all (Answer.succeeds r) = true ↔
      ∀ expression ∈ expressions, ∃ x, evaluateWith r expression = .ok x := by
    rw [List.all_eq_true]
    constructor
    · intro h expression hexpression
      exact Answer.succeeds_iff.mp (h expression hexpression)
    · intro h expression hexpression
      exact Answer.succeeds_iff.mpr (h expression hexpression)
  rw [← hall]
  unfold Answer.ofExpressions
  cases expressions.all (Answer.succeeds r) with
  | true => exact iff_of_true rfl rfl
  | false => exact iff_of_false nofun nofun

theorem ofExpressions_status_le (r : Settings) (expressions : List String) :
    (Answer.ofExpressions r expressions).status ≤ 1 := by
  unfold Answer.ofExpressions
  split
  · exact Nat.zero_le 1
  · exact Nat.le_refl 1

theorem answer_of_callsFor {expressions arguments : List String}
    (hcall : CallsFor r expressions arguments) (hsome : expressions ≠ []) (input : List UInt8) :
    answer arguments input = .ofExpressions r expressions := by
  unfold answer
  rw [Request.ofArguments_of_callsFor hcall]
  cases expressions with
  | nil => exact absurd rfl hsome
  | cons first more => rfl

/-- A call with expressions answers each of them on a line of its own, which is what the keys
    show for it where it can be typed, and ends well exactly if all of them have a value. -/
theorem answer_agrees_with_keys (r : Settings) (expressions arguments : List String)
    (input : List UInt8) (hcall : CallsFor r expressions arguments) (hsome : expressions ≠ []) :
    (answer arguments input).output
      = String.join (expressions.map fun expression => Answer.line r expression ++ "\n") ∧
    (∀ expression, Answers r expression (Answer.line r expression) ∧
      ∀ char ∈ (Answer.line r expression).toList, isLineBreak char = false) ∧
    ((answer arguments input).status = 0 ↔
      ∀ expression ∈ expressions, ∃ x, evaluateWith r expression = .ok x) ∧
    (answer arguments input).status ≤ 1 ∧
    ∀ expression, (∀ char ∈ expression.toList, Key.isInputChar char = true) →
      Answer.line r expression = ((Calculator.new r).type (expression ++ "=")).display ∧
      ((∃ e, evaluateWith r expression = .error e) ↔
        ((Calculator.new r).type (expression ++ "=")).inError = true) := by
  rw [answer_of_callsFor hcall hsome]
  refine ⟨rfl, ?_, ?_, ?_, ?_⟩
  · intro expression
    refine ⟨answers_line r expression, ?_⟩
    intro char hchar
    exact (Answer.isLegible_line r expression).isLineBreak_eq_false hchar
  · exact ofExpressions_status_eq_zero_iff r expressions
  · exact ofExpressions_status_le r expressions
  · intro expression htyped
    constructor
    · exact (Calculator.display_type_equals htyped).symm
    · exact (Calculator.inError_type_equals htyped).symm

/-- Behind the first expression, options are expressions too. -/
theorem answer_agrees_with_keys_options :
    CallsFor { requireFinite := true } ["1/0", "--strict-parens"]
      ["-vv", "--strict-division", "1/0", "--strict-parens"] ∧
    (answer ["-vv", "--strict-division", "1/0", "--strict-parens"] []).output
      = "Error\nError\n" ∧
    (answer ["-vv", "--strict-division", "1/0", "--strict-parens"] []).status ≠ 0 ∧
    ((Calculator.new { requireFinite := true }).type ("1/0" ++ "=")).inError = true := by
  have hcall : CallsFor { requireFinite := true } ["1/0", "--strict-parens"]
      ["-vv", "--strict-division", "1/0", "--strict-parens"] := by
    refine ⟨["-vv", "--strict-division"], ⟨?_, by decide, by decide⟩, .inr ⟨rfl, ?_⟩⟩
    · intro option hoption
      rcases List.mem_cons.mp hoption with rfl | hoption
      · exact .inr (.inr (.inr ⟨1, rfl⟩))
      · exact .inr (.inl (List.mem_singleton.mp hoption))
    · intro first hfirst
      cases hfirst
      decide
  obtain ⟨houtput, -, hstatus, -, hkeys⟩ :=
    answer_agrees_with_keys _ ["1/0", "--strict-parens"] _ [] hcall nofun
  have hdivision : ∃ e, evaluateWith { requireFinite := true } "1/0" = .error e := by
    have hread : Expr.read (Settings.dialect { requireFinite := true }) "1/0"
        = .ok (.binary .div (.number ⟨1, 0⟩) (.number ⟨0, 0⟩)) := by
      rw [Scan.read_eq_run]
      rfl
    have hvalue : (Expr.binary .div (.number ⟨1, 0⟩) (.number ⟨0, 0⟩)).value.isFinite = false := by
      decide +kernel
    unfold evaluateWith
    rw [hread]
    simp only [hvalue]
    exact ⟨_, rfl⟩
  have hoption : ∃ e, evaluateWith { requireFinite := true } "--strict-parens" = .error e := by
    refine ⟨_, evaluateWith_of_read_eq_error (e := .unexpectedChar 's' 2) ?_⟩
    rw [Scan.read_eq_run]
    rfl
  have htyped : ∀ char ∈ "1/0".toList, Key.isInputChar char = true := List.all_eq_true.mp rfl
  obtain ⟨e, hdivision⟩ := hdivision
  obtain ⟨e', hoption⟩ := hoption
  refine ⟨hcall, ?_, ?_, (hkeys "1/0" htyped).2.mp ⟨e, hdivision⟩⟩
  · rw [houtput, List.map_cons, List.map_cons, List.map_nil, Answer.line_of_error hdivision,
      Answer.line_of_error hoption]
    decide
  · intro hzero
    obtain ⟨x, hx⟩ := hstatus.mp hzero "1/0" List.mem_cons_self
    rw [hdivision] at hx
    cases hx

end DeskCalculator
