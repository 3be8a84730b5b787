import DeskCalculator.Proofs.Actions

/-!
# The display leaves no trace

What a calculator does next depends on its entry and its settings, not on what it shows.  Two
calculators that differ in the display do so only as long as nothing is done to them: the first
operation that is not idle makes them equal for good (`performAll_forgets_display`).  So a
calculator that has failed, and one that has been cleared, goes on as a new one does.

The two runs are compared action by action.  An idle action leaves each state as it is, any
other computes the whole next state from what the two have in common (`SameEntry.act_eq`).
-/

namespace DeskCalculator

/-- Every action is idle in the state in which it is taken. -/
def Calculator.IdleThroughout (c : Calculator) (actions : List Action) : Prop :=
  ∀ before action after, actions = before ++ action :: after →
    action.IsIdle (c.actAll before)

/-- A character is taken back where there is none, or a text is typed that has no keys but
    those that do just that. -/
def Operation.IsIdle (c : Calculator) (operation : Operation) : Prop :=
  c.IdleThroughout operation.actions

/-- A character is taken back, if there is one. -/
def Action.TakesBack (action : Action) : Prop := action = backspace ∨ action = press .backspace

namespace Calculator

variable {c c' : Calculator} {action : Action} {actions : List Action}
  {operation : Operation} {operations : List Operation}

/-! ### Idle runs -/

theorem idleThroughout_cons :
    c.IdleThroughout (action :: actions) ↔
      action.IsIdle c ∧ (c.act action).IdleThroughout actions := by
  constructor
  · intro hidle
    constructor
    · exact hidle [] action actions rfl
    · intro before other after hactions
      apply hidle (action :: before) other after
      rw [hactions, List.cons_append]
  · rintro ⟨hhead, htail⟩ before other after hactions
    cases before with
    | nil =>
      cases hactions
      exact hhead
    | cons first before =>
      cases hactions
      exact htail before other after rfl

theorem actAll_of_idleThroughout (h : c.IdleThroughout actions) : c.actAll actions = c := by
  induction actions with
  | nil => rfl
  | cons action actions ih =>
    obtain ⟨hhead, htail⟩ := idleThroughout_cons.mp h
    have hstay := act_of_isIdle hhead
    rw [hstay] at htail
    show (c.act action).actAll actions = c
    rw [hstay]
    exact ih htail

theorem perform_of_isIdle (h : operation.IsIdle c) : c.perform operation = c := by
  rw [← actAll_actions]
  exact actAll_of_idleThroughout h

theorem performAll_of_isIdle (h : ∀ operation ∈ operations, operation.IsIdle c) :
    c.performAll operations = c := by
  induction operations with
  | nil => rfl
  | cons operation operations ih =>
    have hstay := perform_of_isIdle (h operation List.mem_cons_self)
    show (c.perform operation).performAll operations = c
    rw [hstay]
    apply ih
    intro other hother
    exact h other (List.mem_cons_of_mem operation hother)

theorem takesBack_of_isIdle (h : operation.IsIdle c) (haction : action ∈ operation.actions) :
    action.TakesBack := by
  obtain ⟨before, after, hactions⟩ := List.append_of_mem haction
  exact (h before action after hactions).1

theorem performAll_append (c : Calculator) (first second : List Operation) :
    c.performAll (first ++ second) = (c.performAll first).performAll second :=
  List.foldl_append

/-- Either nothing is done all along, or something is done for a first time. -/
theorem idle_or_exists_busy (c : Calculator) (operations : List Operation) :
    (∀ operation ∈ operations, operation.IsIdle c) ∨
      ∃ before operation after, operations = before ++ operation :: after ∧
        ¬ operation.IsIdle (c.performAll before) := by
  induction operations with
  | nil => exact .inl nofun
  | cons operation operations ih =>
    by_cases hidle : operation.IsIdle c
    · rcases ih with hall | ⟨before, busy, after, rfl, hbusy⟩
      · left
        intro other hother
        rcases List.mem_cons.mp hother with rfl | hother
        · exact hidle
        · exact hall other hother
      · right
        refine ⟨operation :: before, busy, after, rfl, ?_⟩
        show ¬ busy.IsIdle ((c.perform operation).performAll before)
        rwa [perform_of_isIdle hidle]
    · right
      exact ⟨[], operation, operations, rfl, hidle⟩

/-! ### Two runs -/

/-- The two differ in the display, if in anything. -/
structure SameEntry (c c' : Calculator) : Prop where
  entry : c.entry = c'.entry
  settings : c.settings = c'.settings

namespace SameEntry

theorem refl (c : Calculator) : c.SameEntry c := ⟨rfl, rfl⟩

theorem isIdle_iff (h : c.SameEntry c') : action.IsIdle c ↔ action.IsIdle c' := by
  unfold Action.IsIdle
  rw [h.entry]

theorem operand_eq (h : c.SameEntry c') : c.operand = c'.operand := by
  unfold operand
  rw [h.entry]

theorem showOutcome_eq {ε : Type} (h : c.SameEntry c') (outcome : Except ε Binary64) :
    c.showOutcome outcome = c'.showOutcome outcome := by
  cases outcome with
  | ok x =>
    unfold showOutcome showResult
    rw [h.settings]
  | error e =>
    unfold showOutcome showError
    rw [h.settings]

theorem backspace_eq (h : c.SameEntry c') (hentry : c.entry ≠ "") :
    c.backspace = c'.backspace := by
  have hentry' : c'.entry ≠ "" := h.entry ▸ hentry
  rw [backspace, backspace, if_neg hentry, if_neg hentry', h.entry, h.settings]

theorem append_eq (h : c.SameEntry c') (char : Char) : c.append char = c'.append char := by
  unfold append
  rw [h.entry, h.settings]

theorem clear_eq (h : c.SameEntry c') : c.clear = c'.clear := by
  unfold clear
  rw [h.settings]

theorem applyToEntry_eq (h : c.SameEntry c') (f : Binary64 → Binary64) :
    c.applyToEntry f = c'.applyToEntry f := by
  unfold applyToEntry
  rw [h.operand_eq, h.showOutcome_eq]

theorem evaluateEntry_eq (h : c.SameEntry c') : c.evaluateEntry = c'.evaluateEntry := by
  unfold evaluateEntry
  rw [h.entry, h.settings, h.showOutcome_eq]

/-- Whatever is done, is done to the entry. -/
theorem act_eq (h : c.SameEntry c') (hbusy : ¬ action.IsIdle c) : c.act action = c'.act action := by
  cases action with
  | append char => exact h.append_eq char
  | press key =>
    cases key with
    | input char => exact h.append_eq char
    | equals => exact h.evaluateEntry_eq
    | clear => exact h.clear_eq
    | backspace => exact h.backspace_eq fun hentry => hbusy ⟨.inr rfl, hentry⟩
    | squareRoot => exact h.applyToEntry_eq _
    | square => exact h.applyToEntry_eq _
  | clear => exact h.clear_eq
  | backspace => exact h.backspace_eq fun hentry => hbusy ⟨.inl rfl, hentry⟩
  | showResult x => exact h.showOutcome_eq (.ok x : Except Unit Binary64)
  | showError => exact h.showOutcome_eq (.error () : Except Unit Binary64)

theorem act (h : c.SameEntry c') (action : Action) : (c.act action).SameEntry (c'.act action) := by
  by_cases hidle : action.IsIdle c
  · rwa [act_of_isIdle hidle, act_of_isIdle (h.isIdle_iff.mp hidle)]
  · rw [h.act_eq hidle]
    exact refl _

theorem actAll (h : c.SameEntry c') (actions : List Action) :
    (c.actAll actions).SameEntry (c'.actAll actions) := by
  induction actions generalizing c c' with
  | nil => exact h
  | cons action actions ih => exact ih (h.act action)

theorem actAll_eq (h : c.SameEntry c') (hbusy : ¬ c.IdleThroughout actions) :
    c.actAll actions = c'.actAll actions := by
  induction actions generalizing c c' with
  | nil =>
    exfalso
    apply hbusy
    intro before action after hactions
    simp at hactions
  | cons action actions ih =>
    by_cases hidle : action.IsIdle c
    · have hrest : ¬ (c.act action).IdleThroughout actions := by
        intro hrest
        exact hbusy (idleThroughout_cons.mpr ⟨hidle, hrest⟩)
      exact ih (h.act action) hrest
    · show (c.act action).actAll actions = (c'.act action).actAll actions
      rw [h.act_eq hidle]

theorem perform (h : c.SameEntry c') (operation : Operation) :
    (c.perform operation).SameEntry (c'.perform operation) := by
  rw [← actAll_actions, ← actAll_actions]
  exact h.actAll _

theorem performAll (h : c.SameEntry c') (operations : List Operation) :
    (c.performAll operations).SameEntry (c'.performAll operations) := by
  induction operations generalizing c c' with
  | nil => exact h
  | cons operation operations ih => exact ih (h.perform operation)

/-- From the first operation on that is not idle the two are one. -/
theorem performAll_eq (h : c.SameEntry c') {before : List Operation}
    (hbusy : ¬ operation.IsIdle (c.performAll before)) (after : List Operation) :
    c.performAll (before ++ operation :: after) = c'.performAll (before ++ operation :: after) := by
  have hstep : (c.performAll before).perform operation
      = (c'.performAll before).perform operation := by
    rw [← actAll_actions, ← actAll_actions]
    exact (h.performAll before).actAll_eq hbusy
  rw [performAll_append, performAll_append]
  show ((c.performAll before).perform operation).performAll after = _
  rw [hstep]
  rfl

end SameEntry

/-! ### Starting anew -/

/-- The operations do to the calculator what they do to a new one; only that while nothing is
    done but taking back characters, of which there are none, an error stays on display. -/
def GoesOnAsNew (c : Calculator) (operations : List Operation) : Prop :=
  c.performAll operations = (new c.settings).performAll operations ∨
    (∀ operation ∈ operations, ∀ action ∈ operation.actions, action.TakesBack) ∧
      (c.performAll operations).entry = "" ∧ (c.performAll operations).display = errorText ∧
      (new c.settings).performAll operations = new c.settings

theorem goesOnAsNew_showError (c : Calculator) (operations : List Operation) :
    c.showError.GoesOnAsNew operations := by
  have hsame : c.showError.SameEntry (new c.settings) := ⟨rfl, rfl⟩
  rcases idle_or_exists_busy c.showError operations with
    hidle | ⟨before, operation, after, rfl, hbusy⟩
  · right
    have hidle' : ∀ operation ∈ operations, operation.IsIdle (new c.settings) := by
      intro operation hoperation before action after hactions
      have haction := hidle operation hoperation before action after hactions
      exact (hsame.actAll before).isIdle_iff.mp haction
    rw [performAll_of_isIdle hidle]
    refine ⟨?_, rfl, rfl, performAll_of_isIdle hidle'⟩
    intro operation hoperation action haction
    exact takesBack_of_isIdle (hidle operation hoperation) haction
  · left
    exact hsame.performAll_eq hbusy after

/-- Calculators that agree in entry and settings agree in the entry ever after, and in the display
    from the first operation on that is not idle.  So a failure leaves no trace but the
    error on display, and clearing leaves none at all. -/
theorem performAll_forgets_display (c c' : Calculator) (h : c.SameEntry c')
    (operations : List Operation) :
    (∀ first, first <+: operations → (c.performAll first).entry = (c'.performAll first).entry) ∧
    (∀ before operation after, operations = before ++ operation :: after →
      ¬ operation.IsIdle (c.performAll before) → ∀ more, more <+: after →
        (c.performAll (before ++ operation :: more)).display
          = (c'.performAll (before ++ operation :: more)).display) ∧
    (∀ action, action.Fails c → (c.act action).GoesOnAsNew operations) ∧
    c.clear.performAll operations = (new c.settings).performAll operations := by
  refine ⟨?_, ?_, ?_, rfl⟩
  · intro first hfirst
    exact (h.performAll first).entry
  · intro before operation after hoperations hbusy more hmore
    rw [h.performAll_eq hbusy more]
  · intro action hfails
    rw [act_of_fails hfails]
    exact goesOnAsNew_showError c operations

theorem performAll_forgets_error :
    (Calculator.mk "" errorText {}).SameEntry (new {}) ∧
    ((Calculator.mk "" errorText {}).performAll [.type "<x"]).display = errorText ∧
    ((new {}).performAll [.type "<x"]).display = "" ∧
    ((Calculator.mk "" errorText {}).performAll [.type "<x", .type "<7<", .type "<"]).display
      = ((new {}).performAll [.type "<x", .type "<7<", .type "<"]).display := by
  have hsame : (Calculator.mk "" errorText {}).SameEntry (new {}) := ⟨rfl, rfl⟩
  have hbusy : ¬ (Operation.type "<7<").IsIdle
      ((Calculator.mk "" errorText {}).performAll [.type "<x"]) := by
    intro hidle
    have htyped := hidle [.press .backspace] (.press (.input '7')) [.press .backspace] rfl
    rcases htyped.1 with hback | hback
    · cases hback
    · cases hback
  obtain ⟨-, hdisplay, -, -⟩ := performAll_forgets_display _ _ hsame
    [.type "<x", .type "<7<", .type "<"]
  refine ⟨hsame, ?_, ?_, ?_⟩
  · decide
  · decide
  · exact hdisplay [.type "<x"] (.type "<7<") [.type "<"] rfl hbusy [.type "<"] (List.prefix_refl _)

end Calculator

end DeskCalculator
