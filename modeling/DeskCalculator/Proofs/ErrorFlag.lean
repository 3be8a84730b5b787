import DeskCalculator.Proofs.Actions
import Mathlib.Data.List.Induction

/-!
# When a calculator is in error

A calculator keeps no flag for being in error; `inError` guesses it from the entry and the
display.  The guess is right: whatever is done to a calculator, it shows its entry, or it shows
`Error` over an empty entry, and the latter exactly if the last thing that was done to it has
failed (`inError_iff_endsInFailure`).  Taking back a character where there is none is not done at
all: it leaves the state as it is, an error included.
-/

namespace DeskCalculator

/-- A split of a list either stops before its last element or lies at it. -/
theorem concat_eq_append_cons {α : Type} {front before after : List α} {final last : α}
    (h : front ++ [final] = before ++ last :: after) :
    (before = front ∧ last = final ∧ after = []) ∨
      ∃ mid, after = mid ++ [final] ∧ front = before ++ last :: mid := by
  rcases List.eq_nil_or_concat after with rfl | ⟨mid, other, rfl⟩
  · obtain ⟨rfl, hlast⟩ := List.append_inj' h rfl
    cases hlast
    exact .inl ⟨rfl, rfl, rfl⟩
  · rw [List.concat_eq_append] at h ⊢
    rw [← List.cons_append, ← List.append_assoc] at h
    obtain ⟨rfl, hother⟩ := List.append_inj' h rfl
    cases hother
    exact .inr ⟨mid, rfl, rfl⟩

namespace Calculator

variable {c : Calculator} {action : Action}

/-! ### The error flag -/

theorem inError_iff : c.inError = true ↔ c.entry = "" ∧ c.display = errorText := by
  rw [inError, Bool.and_eq_true, beq_iff_eq, beq_iff_eq, and_comm]

theorem inError_showError (c : Calculator) : c.showError.inError = true := rfl

/-- What shows its entry is not in error, even if the entry reads like one. -/
theorem inError_eq_false_of_display_eq (h : c.display = c.entry) : c.inError = false := by
  refine Bool.eq_false_iff.mpr fun herror => ?_
  obtain ⟨hentry, hdisplay⟩ := inError_iff.mp herror
  rw [hentry, hdisplay] at h
  exact absurd h (by decide)

theorem inError_act (hidle : ¬ action.IsIdle c) :
    (c.act action).inError = true ↔ action.Fails c := by
  constructor
  · intro herror
    by_cases hfails : action.Fails c
    · exact hfails
    · rw [inError_eq_false_of_display_eq (display_act hidle hfails)] at herror
      cases herror
  · intro hfails
    rw [act_of_fails hfails]
    exact c.inError_showError

def ShowsEntryOrError (c : Calculator) : Prop :=
  c.display = c.entry ∨ c.entry = "" ∧ c.display = errorText

theorem ShowsEntryOrError.act (h : c.ShowsEntryOrError) (action : Action) :
    (c.act action).ShowsEntryOrError := by
  by_cases hidle : action.IsIdle c
  · rwa [act_of_isIdle hidle]
  · by_cases hfails : action.Fails c
    · rw [act_of_fails hfails]
      exact .inr ⟨rfl, rfl⟩
    · exact .inl (display_act hidle hfails)

theorem ShowsEntryOrError.actAll (h : c.ShowsEntryOrError) (actions : List Action) :
    (c.actAll actions).ShowsEntryOrError := by
  induction actions generalizing c with
  | nil => exact h
  | cons action actions ih => exact ih (h.act action)

/-- Something has been done, and the last of it has failed: only idle actions follow. -/
def EndsInFailure (c : Calculator) (actions : List Action) : Prop :=
  ∃ before last after, actions = before ++ last :: after ∧
    ¬ last.IsIdle (c.actAll before) ∧ last.Fails (c.actAll before) ∧
    ∀ mid idle rest, after = mid ++ idle :: rest →
      idle.IsIdle (c.actAll (before ++ last :: mid))

variable {actions : List Action}

theorem endsInFailure_concat_of_isIdle (h : action.IsIdle (c.actAll actions)) :
    c.EndsInFailure (actions ++ [action]) ↔ c.EndsInFailure actions := by
  constructor
  · rintro ⟨before, last, after, hactions, hdone, hfails, hafter⟩
    rcases concat_eq_append_cons hactions with ⟨rfl, rfl, rfl⟩ | ⟨mid, rfl, rfl⟩
    · exact absurd h hdone
    · refine ⟨before, last, mid, rfl, hdone, hfails, fun first idle rest hmid => ?_⟩
      refine hafter first idle (rest ++ [action]) ?_
      rw [hmid, List.append_assoc, List.cons_append]
  · rintro ⟨before, last, after, rfl, hdone, hfails, hafter⟩
    refine ⟨before, last, after ++ [action], ?_, hdone, hfails, fun first idle rest hmid => ?_⟩
    · rw [List.append_assoc, List.cons_append]
    · rcases concat_eq_append_cons hmid with ⟨rfl, rfl, rfl⟩ | ⟨mid, rfl, rfl⟩
      · exact h
      · exact hafter first idle mid rfl

theorem endsInFailure_concat (h : ¬ action.IsIdle (c.actAll actions)) :
    c.EndsInFailure (actions ++ [action]) ↔ action.Fails (c.actAll actions) := by
  constructor
  · rintro ⟨before, last, after, hactions, -, hfails, hafter⟩
    rcases concat_eq_append_cons hactions with ⟨rfl, rfl, rfl⟩ | ⟨mid, rfl, rfl⟩
    · exact hfails
    · exact absurd (hafter mid action [] rfl) h
  · intro hfails
    exact ⟨actions, action, [], rfl, h, hfails, fun mid idle rest hmid => by simp at hmid⟩

theorem inError_actAll (hstart : c.inError = false) (actions : List Action) :
    (c.actAll actions).inError = true ↔ c.EndsInFailure actions := by
  -- what was done last decides, so the list is taken apart from its end
  induction actions using List.reverseRecOn with
  | nil =>
    show c.inError = true ↔ _
    rw [hstart]
    refine iff_of_false Bool.false_ne_true ?_
    rintro ⟨before, last, after, hactions, -⟩
    simp at hactions
  | append_singleton actions action ih =>
    rw [actAll_concat]
    by_cases hidle : action.IsIdle (c.actAll actions)
    · rw [act_of_isIdle hidle, ih, endsInFailure_concat_of_isIdle hidle]
    · rw [inError_act hidle, endsInFailure_concat hidle]

/-- Whatever is done to a calculator, its settings stay, it shows its entry or an error over an
    empty entry, and it is in error exactly if the last thing that was done has failed. -/
theorem inError_iff_endsInFailure (r : Settings) (operations : List Operation) :
    ((new r).performAll operations).settings = r ∧
    ((new r).performAll operations).ShowsEntryOrError ∧
    (((new r).performAll operations).inError = true ↔
      (new r).EndsInFailure (operations.flatMap Operation.actions)) := by
  rw [← actAll_flatMap_actions]
  have hnew : (new r).ShowsEntryOrError := .inl rfl
  refine ⟨settings_actAll _ _, hnew.actAll _, ?_⟩
  exact inError_actAll rfl _

/-- Letters that read like an error are an entry like any other. -/
example : ((new {}).actAll (errorText.toList.map .append)).display = errorText ∧
    ((new {}).actAll (errorText.toList.map .append)).inError = false := by decide

end Calculator

end DeskCalculator
