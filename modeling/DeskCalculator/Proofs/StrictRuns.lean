import DeskCalculator.Proofs.Chaining
import DeskCalculator.Proofs.ErrorFlag
import DeskCalculator.Proofs.Policies

/-!
# Strict calculators only ever refuse

The same keys are pressed on a calculator with any settings and on one with the generous default.
As long as the first refuses nothing, both hold and show the same text after every key.  They can
part at an `=` only, where the default has a value for the common entry and a policy of the first
refuses it: a group is still open, or the value is not finite
(`sameText_or_partAtEquals`).

A result is the next entry, so one difference would spread.  The relation that is kept from key to
key is therefore equality of both texts, and it is lost only together with a refusal
(`Calculator.SameText.press`).
-/

namespace DeskCalculator

/-- What the policies object to in a text with the value `x`. -/
def Settings.Refuses (r : Settings) (text : String) (x : Binary64) : Prop :=
  (r.requireClosing = true ∧ text.toList.count ')' < text.toList.count '(') ∨
    (r.requireFinite = true ∧ x.isFinite = false)

theorem evaluateWith_agrees_or_refuses (r : Settings) (text : String) :
    (evaluateWith r text).toOption = (evaluate text).toOption ∨
      ∃ x e, evaluate text = .ok x ∧ r.Refuses text x ∧ evaluateWith r text = .error e := by
  cases hdefault : evaluate text with
  | error e =>
    left
    rw [evaluateWith_eq_of_evaluate_eq_error r hdefault]
  | ok x =>
    obtain ⟨-, hvalue⟩ := evaluateWith_eq_of_evaluate_eq_ok r hdefault
    rw [hvalue]
    by_cases hopen : r.requireClosing = true ∧ text.toList.count ')' < text.toList.count '('
    · rw [if_pos hopen]
      exact .inr ⟨x, _, rfl, .inl hopen, rfl⟩
    · rw [if_neg hopen]
      by_cases hfinite : r.requireFinite = true ∧ x.isFinite = false
      · rw [if_pos hfinite]
        exact .inr ⟨x, _, rfl, .inr hfinite, rfl⟩
      · rw [if_neg hfinite]
        exact .inl rfl

namespace Calculator

variable {c c' : Calculator}

/-! ### One key -/

/-- Both hold and show the same, whatever their settings. -/
def SameText (c c' : Calculator) : Prop := c.entry = c'.entry ∧ c.display = c'.display

theorem sameText_showOutcome {ε ε' : Type} {outcome : Except ε Binary64}
    {outcome' : Except ε' Binary64} (h : outcome.toOption = outcome'.toOption) :
    SameText (c.showOutcome outcome) (c'.showOutcome outcome') := by
  rw [showOutcome_eq, showOutcome_eq, h]
  cases outcome'.toOption with
  | none => exact ⟨rfl, rfl⟩
  | some x => exact ⟨rfl, rfl⟩

theorem SameText.applyToEntry (h : SameText c c') (f : Binary64 → Binary64) :
    SameText (c.applyToEntry f) (c'.applyToEntry f) := by
  have hoperand : c.operand = c'.operand := by rw [operand, operand, h.1]
  refine sameText_showOutcome ?_
  rw [hoperand]

theorem SameText.backspace (h : SameText c c') : SameText c.backspace c'.backspace := by
  unfold Calculator.backspace
  rw [h.1]
  split
  · exact h
  · exact ⟨rfl, rfl⟩

/-- Only `=` looks at the settings. -/
theorem SameText.press_of_ne_equals (h : SameText c c') {key : Key} (hkey : key ≠ .equals) :
    SameText (c.press key) (c'.press key) := by
  cases key with
  | input char =>
    have hentry : c.entry.push char = c'.entry.push char := by rw [h.1]
    exact ⟨hentry, hentry⟩
  | equals => exact absurd rfl hkey
  | clear => exact ⟨rfl, rfl⟩
  | backspace => exact h.backspace
  | squareRoot => exact h.applyToEntry _
  | square => exact h.applyToEntry _

theorem SameText.press (h : SameText c c') (hdefault : c'.settings = {}) (key : Key) :
    SameText (c.press key) (c'.press key) ∨
      key = .equals ∧ (c.press key).inError = true ∧ (c'.press key).inError = false ∧
        ∃ x, evaluate c'.entry = .ok x ∧ c.settings.Refuses c'.entry x := by
  by_cases hkey : key = .equals
  · subst hkey
    have hpress : c.press .equals = c.showOutcome (evaluateWith c.settings c'.entry) := by
      rw [← h.1]
      rfl
    have hpress' : c'.press .equals = c'.showOutcome (evaluate c'.entry) := by
      rw [evaluate, ← hdefault]
      rfl
    rw [hpress, hpress']
    rcases evaluateWith_agrees_or_refuses c.settings c'.entry with
      hagrees | ⟨x, e, hvalue, hrefuses, herror⟩
    · exact .inl (sameText_showOutcome hagrees)
    · right
      rw [herror, hvalue]
      exact ⟨rfl, rfl, inError_eq_false_of_display_eq rfl, x, rfl, hrefuses⟩
  · exact .inl (h.press_of_ne_equals hkey)

/-! ### Many keys -/

/-- The calculators are the same up to here and part at the `=` that is pressed next, because the
    settings of the first refuse the value of the common entry. -/
structure PartAtEquals (c c' : Calculator) (before : List Key) : Prop where
  same : ∀ first, first <+: before → SameText (c.pressAll first) (c'.pressAll first)
  refused : (c.pressAll (before ++ [.equals])).inError = true
  evaluated : (c'.pressAll (before ++ [.equals])).inError = false
  reason : ∃ x, evaluate (c'.pressAll before).entry = .ok x ∧
    c.settings.Refuses (c'.pressAll before).entry x

theorem sameText_prefix_cons (h : SameText c c') {key : Key} {keys : List Key}
    (hkeys : ∀ first, first <+: keys →
      SameText ((c.press key).pressAll first) ((c'.press key).pressAll first)) :
    ∀ first, first <+: key :: keys → SameText (c.pressAll first) (c'.pressAll first) := by
  intro first hfirst
  rcases List.prefix_cons_iff.mp hfirst with rfl | ⟨rest, rfl, hrest⟩
  · exact h
  · exact hkeys rest hrest

theorem SameText.pressAll (h : SameText c c') (hdefault : c'.settings = {}) (keys : List Key) :
    (∀ first, first <+: keys → SameText (c.pressAll first) (c'.pressAll first)) ∨
      ∃ before after, keys = before ++ .equals :: after ∧ PartAtEquals c c' before := by
  induction keys generalizing c c' with
  | nil =>
    left
    intro first hfirst
    rw [List.prefix_nil.mp hfirst]
    exact h
  | cons key keys ih =>
    rcases h.press hdefault key with hsame | ⟨rfl, hrefused, hevaluated, hreason⟩
    · rcases ih hsame ((c'.settings_press key).trans hdefault) with
        hall | ⟨before, after, rfl, hpart⟩
      · exact .inl (sameText_prefix_cons h hall)
      · refine .inr ⟨key :: before, after, rfl, sameText_prefix_cons h hpart.same,
          hpart.refused, hpart.evaluated, ?_⟩
        rw [← c.settings_press key]
        exact hpart.reason
    · right
      refine ⟨[], keys, rfl, fun first hfirst => ?_, hrefused, hevaluated, hreason⟩
      rw [List.prefix_nil.mp hfirst]
      exact h

/-- Under any settings the keys do what they do by default, up to an `=` at which the settings
    refuse a value; a run without errors is the default run. -/
theorem sameText_or_partAtEquals (r : Settings) (keys : List Key) :
    ((∀ first, first <+: keys → SameText ((new r).pressAll first) ((new {}).pressAll first)) ∨
      ∃ before after, keys = before ++ .equals :: after ∧
        PartAtEquals (new r) (new {}) before) ∧
    ((∀ first, first <+: keys → ((new r).pressAll first).inError = false) →
      ∀ first, first <+: keys → SameText ((new r).pressAll first) ((new {}).pressAll first)) := by
  have hstart : SameText (new r) (new {}) := ⟨rfl, rfl⟩
  have hrun := hstart.pressAll rfl keys
  refine ⟨hrun, fun hnever => ?_⟩
  rcases hrun with hsame | ⟨before, after, rfl, hpart⟩
  · exact hsame
  · have hfirst : before ++ [.equals] <+: before ++ .equals :: after :=
      ⟨after, (List.append_cons before .equals after).symm⟩
    have herror := hpart.refused
    rw [hnever _ hfirst] at herror
    cases herror

end Calculator

end DeskCalculator
