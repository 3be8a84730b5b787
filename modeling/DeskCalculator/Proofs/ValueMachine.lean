import DeskCalculator.Proofs.Actions
import DeskCalculator.Proofs.DisplayRoundTrip

/-!
# Results as text and results as numbers

A calculator keeps its result as the text that shows it, and every key reads that text again: `=` as
an expression, the root and the square as a single number.  It might as well keep the
number.  `ValueState` is such a machine, and the keys that go from result to result take both
through the same results (`results_as_text_simulate_numbers`).

One key is enough: what a state of the machine shows, read by any of the keys, is what the next
state shows (`ValueState.press_shownOn`).  A finite number is read back from its text as it was;
the words for the others are read by no key.
-/

namespace DeskCalculator

/-! ### The machine that keeps numbers -/

/-- The keys that go from a result to a result. -/
inductive ResultKey where
  | equals
  | squareRoot
  | square
  deriving DecidableEq, Repr

namespace ResultKey

def key : ResultKey → Key
  | equals => .equals
  | squareRoot => .squareRoot
  | square => .square

def apply : ResultKey → Binary64 → Binary64
  | equals, x => x
  | squareRoot, x => x.sqrt
  | square, x => x * x

end ResultKey

/-- A calculator that keeps its result as a number. -/
inductive ValueState where
  | value (x : Binary64)
  | error
  deriving DecidableEq, Repr

namespace ValueState

/-- A key works on a finite number.  After an error there is nothing to evaluate, and the other keys
    find a zero. -/
def press : ValueState → ResultKey → ValueState
  | value x, key => if x.isFinite then value (key.apply x) else error
  | error, .equals => error
  | error, key => value (key.apply (.zero false))

/-- The calculator that shows what the machine holds. -/
def shownOn (c : Calculator) : ValueState → Calculator
  | value x => c.showResult x
  | error => c.showError

end ValueState

/-! ### Reading the entry -/

theorem exists_mem_toChars_ne_space (x : Binary64) : ∃ char ∈ x.toChars, char ≠ ' ' := by
  cases x with
  | finite negative m =>
    obtain ⟨digit, hhead, hdigit⟩ := (Option.any_eq_true ..).mp m.shortest.numeral_toChars.head
    refine ⟨digit, ?_, ?_⟩
    · rw [toChars_finite]
      exact List.mem_append_right _ (List.mem_of_mem_head? hhead)
    · rintro rfl
      cases hdigit
  | infinite negative =>
    cases negative with
    | false => exact ⟨'I', by decide, by decide⟩
    | true => exact ⟨'I', by decide, by decide⟩
  | nan => exact ⟨'N', by decide, by decide⟩

theorem operand_of_mem {c : Calculator} {char : Char} (hchar : char ∈ c.entry.toList)
    (hspace : char ≠ ' ') : c.operand = readNumber c.entry := by
  apply if_neg
  intro hall
  exact hspace (beq_iff_eq.mp (List.all_eq_true.mp hall char hchar))

theorem operand_showResult (c : Calculator) (x : Binary64) :
    (c.showResult x).operand = readNumber x.text := by
  obtain ⟨char, hchar, hspace⟩ := exists_mem_toChars_ne_space x
  rw [← toList_text] at hchar
  exact operand_of_mem hchar hspace

theorem evaluateWith_empty (s : Settings) :
    evaluateWith s "" = .error (.invalid (.unexpectedEnd 0)) :=
  evaluateWith_of_read_eq_error (by rw [Scan.read_eq_run]; rfl)

/-! ### One key -/

section Keys

variable (c : Calculator) {x : Binary64}

/-- What a key other than `=` computes from the entry. -/
theorem press_key_of_operand {key : ResultKey} (hkey : key ≠ .equals) :
    c.press key.key = c.showOutcome (c.operand.map key.apply) := by
  cases key with
  | equals => exact absurd rfl hkey
  | squareRoot => rfl
  | square => rfl

theorem press_showResult_of_isFinite (hx : x.isFinite = true) (key : ResultKey) :
    (c.showResult x).press key.key = c.showResult (key.apply x) := by
  by_cases hkey : key = .equals
  · subst hkey
    show Calculator.showOutcome _ (evaluateWith c.settings x.text) = _
    rw [evaluateWith_text c.settings hx]
    rfl
  · rw [press_key_of_operand _ hkey, operand_showResult, readNumber_text hx]
    rfl

/-- An entry that is refused at a letter is refused by all of the keys. -/
theorem press_of_isRefused (h : IsRefusedAtFirstLetter c.entry) (key : ResultKey) :
    c.press key.key = c.showError := by
  obtain ⟨before, letter, after, hentry, hletter, -, hevaluate, hreadNumber⟩ := h
  by_cases hkey : key = .equals
  · subst hkey
    show c.showOutcome (evaluateWith c.settings c.entry) = _
    rw [hevaluate c.settings]
    rfl
  · have hspace : letter ≠ ' ' := by
      rintro rfl
      cases hletter
    have hmem : letter ∈ c.entry.toList := by
      rw [hentry]
      exact List.mem_append_right before List.mem_cons_self
    rw [press_key_of_operand _ hkey, operand_of_mem hmem hspace, hreadNumber]
    rfl

theorem press_showResult_of_not_isFinite (hx : x.isFinite = false) (key : ResultKey) :
    (c.showResult x).press key.key = c.showError :=
  press_of_isRefused (c.showResult x) (isRefused_of_not_isFinite hx) key

theorem press_equals_showError : c.showError.press .equals = c.showError := by
  show Calculator.showOutcome _ (evaluateWith c.settings "") = _
  rw [evaluateWith_empty]
  rfl

/-- An empty entry counts as zero. -/
theorem press_showError {key : ResultKey} (hkey : key ≠ .equals) :
    c.showError.press key.key = c.showResult (key.apply (.zero false)) := by
  rw [press_key_of_operand _ hkey]
  rfl

end Keys

/-! ### Many keys -/

namespace ValueState

theorem press_shownOn (c : Calculator) (state : ValueState) (key : ResultKey) :
    (state.shownOn c).press key.key = (state.press key).shownOn c := by
  cases state with
  | value x =>
    cases hx : x.isFinite with
    | true =>
      rw [press, if_pos hx]
      exact press_showResult_of_isFinite c hx key
    | false =>
      rw [press, if_neg (Bool.eq_false_iff.mp hx)]
      exact press_showResult_of_not_isFinite c hx key
  | error =>
    cases key with
    | equals => exact press_equals_showError c
    | squareRoot => exact press_showError c nofun
    | square => exact press_showError c nofun

theorem pressAll_shownOn (c : Calculator) (state : ValueState) (keys : List ResultKey) :
    (state.shownOn c).pressAll (keys.map ResultKey.key) = (keys.foldl press state).shownOn c := by
  induction keys generalizing state with
  | nil => rfl
  | cons key keys ih =>
    have hrest := ih (state.press key)
    rw [← press_shownOn] at hrest
    exact hrest

theorem press_equals_press_equals (state : ValueState) :
    (state.press .equals).press .equals = state.press .equals := by
  cases state with
  | value x =>
    cases hx : x.isFinite with
    | true =>
      have hkept : (value x).press .equals = value x := if_pos hx
      rw [hkept, hkept]
    | false =>
      have hlost : (value x).press .equals = error := if_neg (Bool.eq_false_iff.mp hx)
      rw [hlost]
      rfl
  | error => rfl

theorem exists_shownOn_evaluateEntry (c : Calculator) :
    ∃ state : ValueState, c.press .equals = state.shownOn c := by
  show ∃ state : ValueState, c.showOutcome (evaluateWith c.settings c.entry) = state.shownOn c
  cases evaluateWith c.settings c.entry with
  | ok x => exact ⟨value x, rfl⟩
  | error e => exact ⟨error, rfl⟩

theorem pressAll_equals_equals_equals (c : Calculator) :
    c.pressAll [.equals, .equals, .equals] = c.pressAll [.equals, .equals] := by
  obtain ⟨state, hstate⟩ := exists_shownOn_evaluateEntry c
  have htwice : c.pressAll [.equals, .equals] = (state.press .equals).shownOn c := by
    show (c.press .equals).press .equals = _
    rw [hstate]
    exact press_shownOn c state .equals
  have hthrice : c.pressAll [.equals, .equals, .equals]
      = ((state.press .equals).press .equals).shownOn c := by
    show (c.pressAll [.equals, .equals]).press .equals = _
    rw [htwice]
    exact press_shownOn c (state.press .equals) .equals
  rw [hthrice, htwice, press_equals_press_equals]

end ValueState

/-- From a result on, keys that make results out of results do to the text what they would do to
    the number.  In particular `=` settles after it has been pressed twice, whatever the entry. -/
theorem results_as_text_simulate_numbers (c : Calculator) :
    (∀ (x : Binary64) (keys : List ResultKey),
      (c.showResult x).pressAll (keys.map ResultKey.key)
        = (keys.foldl ValueState.press (.value x)).shownOn c) ∧
    c.pressAll [.equals, .equals, .equals] = c.pressAll [.equals, .equals] := by
  constructor
  · intro x keys
    exact ValueState.pressAll_shownOn c (.value x) keys
  · exact ValueState.pressAll_equals_equals_equals c

end DeskCalculator
