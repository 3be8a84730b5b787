import DeskCalculator.Calculator

/-!
# What can be done to a calculator

Keys are pressed, texts are typed, and the state is changed directly: all of it comes down to
single actions, one after the other (`Calculator.actAll_flatMap_actions`).  An action is of one of
three kinds.  It is idle and changes nothing (`Calculator.act_of_isIdle`), it fails and shows an
error (`Calculator.act_of_fails`), or the calculator shows its entry afterwards
(`Calculator.display_act`).  No action changes the settings.
-/

namespace DeskCalculator

/-! ### Actions -/

/-- A single thing that can be done to a calculator. -/
inductive Action where
  | append (char : Char)
  | press (key : Key)
  | clear
  | backspace
  | showResult (x : Binary64)
  | showError
  deriving DecidableEq, Repr

/-- An action, or many at once: typing a text. -/
inductive Operation where
  | act (action : Action)
  | type (text : String)
  deriving DecidableEq, Repr

/-- Typing a text is pressing the keys that it stands for. -/
def Operation.actions : Operation → List Action
  | act action => [action]
  | type text => (text.toList.filterMap Key.ofChar?).map .press

namespace Calculator

def act (c : Calculator) : Action → Calculator
  | .append char => c.append char
  | .press key => c.press key
  | .clear => c.clear
  | .backspace => c.backspace
  | .showResult x => c.showResult x
  | .showError => c.showError

def pressAll (c : Calculator) (keys : List Key) : Calculator := keys.foldl press c

def actAll (c : Calculator) (actions : List Action) : Calculator := actions.foldl act c

def perform (c : Calculator) : Operation → Calculator
  | .act action => c.act action
  | .type text => c.type text

def performAll (c : Calculator) (operations : List Operation) : Calculator :=
  operations.foldl perform c

theorem actAll_concat (c : Calculator) (actions : List Action) (action : Action) :
    c.actAll (actions ++ [action]) = (c.actAll actions).act action := by
  rw [actAll, List.foldl_append]
  rfl

theorem actAll_actions (c : Calculator) (operation : Operation) :
    c.actAll operation.actions = c.perform operation := by
  cases operation with
  | act action => rfl
  | type text => exact List.foldl_map

theorem actAll_flatMap_actions (c : Calculator) (operations : List Operation) :
    c.actAll (operations.flatMap Operation.actions) = c.performAll operations := by
  induction operations generalizing c with
  | nil => rfl
  | cons operation operations ih =>
    rw [List.flatMap_cons, actAll, List.foldl_append]
    exact (ih _).trans (congrArg (performAll · operations) (c.actAll_actions operation))

end Calculator

/-! ### Three kinds of actions -/

namespace Action

/-- A character is taken back where there is none. -/
def IsIdle (c : Calculator) (action : Action) : Prop :=
  (action = backspace ∨ action = press .backspace) ∧ c.entry = ""

/-- A calculation that comes to no value, or an error that is shown as it is. -/
inductive Fails (c : Calculator) : Action → Prop where
  | showError : Fails c showError
  | equals {e : EvalError} : evaluateWith c.settings c.entry = .error e → Fails c (press .equals)
  | squareRoot {e : SyntaxError} : c.operand = .error e → Fails c (press .squareRoot)
  | square {e : SyntaxError} : c.operand = .error e → Fails c (press .square)

end Action

namespace Calculator

variable {c : Calculator} {action : Action}

theorem settings_showOutcome {ε : Type} (c : Calculator) (outcome : Except ε Binary64) :
    (c.showOutcome outcome).settings = c.settings := by
  cases outcome with
  | ok x => rfl
  | error e => rfl

theorem settings_backspace (c : Calculator) : c.backspace.settings = c.settings := by
  unfold backspace
  split
  · rfl
  · rfl

theorem settings_press (c : Calculator) (key : Key) : (c.press key).settings = c.settings := by
  cases key with
  | input char => rfl
  | equals => exact c.settings_showOutcome _
  | clear => rfl
  | backspace => exact c.settings_backspace
  | squareRoot => exact c.settings_showOutcome _
  | square => exact c.settings_showOutcome _

theorem settings_pressAll (c : Calculator) (keys : List Key) :
    (c.pressAll keys).settings = c.settings := by
  induction keys generalizing c with
  | nil => rfl
  | cons key keys ih => exact (ih _).trans (c.settings_press key)

theorem settings_type (c : Calculator) (text : String) : (c.type text).settings = c.settings :=
  c.settings_pressAll _

theorem settings_act (c : Calculator) (action : Action) :
    (c.act action).settings = c.settings := by
  cases action with
  | press key => exact c.settings_press key
  | backspace => exact c.settings_backspace
  | _ => rfl

theorem settings_actAll (c : Calculator) (actions : List Action) :
    (c.actAll actions).settings = c.settings := by
  induction actions generalizing c with
  | nil => rfl
  | cons action actions ih => exact (ih _).trans (c.settings_act action)

theorem backspace_of_entry_eq_empty (h : c.entry = "") : c.backspace = c := if_pos h

theorem act_of_isIdle (h : action.IsIdle c) : c.act action = c := by
  obtain ⟨rfl | rfl, hentry⟩ := h
  · exact backspace_of_entry_eq_empty hentry
  · exact backspace_of_entry_eq_empty hentry

theorem act_of_fails (h : action.Fails c) : c.act action = c.showError := by
  cases h with
  | showError => rfl
  | equals hvalue =>
    show c.showOutcome (evaluateWith c.settings c.entry) = _
    rw [hvalue]
    rfl
  | squareRoot hoperand =>
    show c.showOutcome (c.operand.map Binary64.sqrt) = _
    rw [hoperand]
    rfl
  | square hoperand =>
    show c.showOutcome (c.operand.map fun x => x * x) = _
    rw [hoperand]
    rfl

theorem display_backspace (h : c.entry ≠ "") : c.backspace.display = c.backspace.entry := by
  rw [backspace, if_neg h]

theorem display_showOutcome {ε : Type} {outcome : Except ε Binary64}
    (h : ∀ e, outcome ≠ .error e) :
    (c.showOutcome outcome).display = (c.showOutcome outcome).entry := by
  cases outcome with
  | ok x => rfl
  | error e => exact absurd rfl (h e)

theorem display_applyToEntry (h : ∀ e, c.operand ≠ .error e) (f : Binary64 → Binary64) :
    (c.applyToEntry f).display = (c.applyToEntry f).entry := by
  refine display_showOutcome fun e he => ?_
  cases hoperand : c.operand with
  | ok x =>
    rw [hoperand] at he
    cases he
  | error e' => exact h e' hoperand

theorem display_act (hidle : ¬ action.IsIdle c) (hfails : ¬ action.Fails c) :
    (c.act action).display = (c.act action).entry := by
  cases action with
  | append char => rfl
  | press key =>
    cases key with
    | input char => rfl
    | equals => exact display_showOutcome fun e he => hfails (.equals he)
    | clear => rfl
    | backspace => exact display_backspace fun hentry => hidle ⟨.inr rfl, hentry⟩
    | squareRoot => exact display_applyToEntry (fun e he => hfails (.squareRoot he)) _
    | square => exact display_applyToEntry (fun e he => hfails (.square he)) _
  | clear => rfl
  | backspace => exact display_backspace fun hentry => hidle ⟨.inl rfl, hentry⟩
  | showResult x => rfl
  | showError => exact absurd .showError hfails

end Calculator

end DeskCalculator
