import DeskCalculator.Proofs.ErrorPlaces
import DeskCalculator.Proofs.GrammarCompleteness
import DeskCalculator.Proofs.SingleNumber
import Mathlib.Data.List.Induction

/-!
# Signs that change nothing

Where an operand has to follow, a plus sign means nothing and two minus signs cancel.  They can
be put into any text there, whether it can be read or not, and the outcome stays the same up to
the places of errors (`evaluateWith_neutral_signs`).  A whole chain of signs comes to one minus
sign or to none.

Where an operand has to follow can be seen from the text: nothing but spaces stands in front, or
an operator, a sign or an opening parenthesis does.  If the machine comes so far, it waits for an
operand there (`Scan.feed_of_expectsOperand`), and a sign is all that it then keeps of a chain.
-/

namespace DeskCalculator

open Scan

/-! ### Where an operand has to follow -/

/-- The symbols behind which an operand has to follow. -/
def openers : List Char := ['+', '-', '*', '/', '(']

/-- The text is blank, or the last of its characters that is no space asks for an operand. -/
def ExpectsOperand (text : List Char) : Prop :=
  ∀ char, (text.filter (· != ' ')).getLast? = some char → char ∈ openers

instance (text : List Char) : Decidable (ExpectsOperand text) :=
  decidable_of_iff (((text.filter (· != ' ')).getLast?.all (openers.contains ·)) = true) (by
    simp [ExpectsOperand, Option.all_eq_true])

/-- What a chain of signs with so many minus signs comes to. -/
def netSign (minuses : Nat) : List Char := minusIf (minuses % 2 = 1)

namespace Scan

variable {d : Dialect} {s s' : Scan}

theorem feed_netSign (minuses : Nat) (groups : List Pending) (pending : Pending) :
    (operand groups pending).feed d (netSign minuses)
      = some (operand groups (pending.sign (decide (minuses % 2 = 1)))) := by
  unfold netSign minusIf
  split
  · next hodd =>
    rw [hodd]
    exact feed_cons_eq_some_iff.mpr ⟨_, next?_operand_sign rfl groups pending, feed_nil _⟩
  · next heven => simp [Pending.sign, heven]

theorem isNumeralChar_of_mem_openers {char : Char} (h : char ∈ openers) :
    Decimal.isNumeralChar char = false := by
  have hall : openers.all (fun char => !Decimal.isNumeralChar char) = true := rfl
  simpa using List.all_eq_true.mp hall char h

/-- Behind an operator, a sign or an opening parenthesis the machine waits for an operand. -/
theorem Step.exists_operand {char : Char} (h : Step d s char s') (hchar : char ∈ openers) :
    ∃ groups pending, s' = operand groups pending := by
  cases h with
  | blank groups pending => exact ⟨groups, pending, rfl⟩
  | sign groups pending hsign => exact ⟨groups, _, rfl⟩
  | opening pending hallows => exact ⟨_, .start, rfl⟩
  | digit groups pending hdigit =>
    have hnumeral := isNumeralChar_of_mem_openers hchar
    rw [Decimal.isNumeralChar_of_isDigit hdigit] at hnumeral
    cases hnumeral
  | numeral groups pending run hnumeral =>
    rw [isNumeralChar_of_mem_openers hchar] at hnumeral
    cases hnumeral
  | blankBehind hsettle => simp [openers] at hchar
  | additive hsettle hop => exact ⟨_, _, rfl⟩
  | multiplicative hsettle hop => exact ⟨_, _, rfl⟩
  | closing hsettle => simp [openers] at hchar

theorem feed_of_expectsOperand {text : List Char} (htext : ExpectsOperand text)
    (h : start.feed d text = some s) : ∃ groups pending, s = operand groups pending := by
  induction text using List.reverseRecOn generalizing s with
  | nil =>
    cases h
    exact ⟨[], .start, rfl⟩
  | append_singleton text char ih =>
    rw [feed_append] at h
    obtain ⟨mid, hmid, hlast⟩ := Option.bind_eq_some_iff.mp h
    obtain ⟨next, hnext, hnil⟩ := feed_cons_eq_some_iff.mp hlast
    cases hnil
    have hstep := next?_eq_some_iff.mp hnext
    by_cases hspace : char = ' '
    · subst hspace
      have hfront : ExpectsOperand text := by
        intro other hother
        apply htext other
        simpa using hother
      obtain ⟨groups, pending, rfl⟩ := ih hfront hmid
      rw [next?_operand_space] at hnext
      cases hnext
      exact ⟨groups, pending, rfl⟩
    · apply hstep.exists_operand
      apply htext char
      simp [hspace]

/-- Between an operand that has to follow and what is in front of it, signs can be exchanged for
    others that negate as much. -/
theorem run_signs {before chain after : List Char} {minuses : Nat}
    (hbefore : ExpectsOperand before) (hchain : SignChain chain minuses) :
    start.run d 0 (before ++ chain ++ after)
      = (start.run d 0 (before ++ netSign minuses ++ after)).mapError
          (.relocate (movedPlace before.length (netSign minuses).length chain.length)) := by
  cases hfeed : start.feed d before with
  | none =>
    rw [List.append_assoc, List.append_assoc]
    exact run_replace_of_feed_eq_none hfeed _ _ _ _
  | some s =>
    obtain ⟨groups, pending, rfl⟩ := feed_of_expectsOperand hbefore hfeed
    exact run_replace hfeed (feed_netSign minuses groups pending) (hchain.feed_eq groups pending)
      rfl fun position => rfl

end Scan

/-! ### The calculator -/

section NeutralSigns

variable {s : Settings} {before : String}

theorem evaluateWith_signs (hbefore : ExpectsOperand before.toList) {chain : String}
    {minuses : Nat} (hchain : SignChain chain.toList minuses) (after : String) :
    evaluateWith s (before ++ chain ++ after)
      = (evaluateWith s (before ++ String.ofList (netSign minuses) ++ after)).mapError
          (.relocate (movedPlace before.length (netSign minuses).length chain.length)) := by
  apply evaluateWith_eq_mapError
  simp only [String.toList_append, String.toList_ofList, ← String.length_toList]
  exact run_signs hbefore hchain

end NeutralSigns

/-- Where an operand has to follow, a plus sign and a pair of minus signs move what stands behind
    them and change nothing else, and a chain of signs does what one minus sign does, or none. -/
theorem evaluateWith_neutral_signs (s : Settings) (before after : String)
    (hbefore : ExpectsOperand before.toList) :
    evaluateWith s (before ++ "+" ++ after)
        = (evaluateWith s (before ++ after)).mapError (.relocate (movedPlace before.length 0 1)) ∧
      evaluateWith s (before ++ "--" ++ after)
        = (evaluateWith s (before ++ after)).mapError (.relocate (movedPlace before.length 0 2)) ∧
      ∀ (chain : String) (minuses : Nat), SignChain chain.toList minuses →
        evaluateWith s (before ++ chain ++ after)
          = (evaluateWith s (before ++ String.ofList (netSign minuses) ++ after)).mapError
              (.relocate (movedPlace before.length (netSign minuses).length chain.length)) := by
  have hplus : SignChain "+".toList 0 := .plus 0 .nil
  have hminuses : SignChain "--".toList 2 := .minus 0 (.minus 0 .nil)
  have hnone : ∀ minuses, minuses % 2 = 0 →
      before ++ String.ofList (netSign minuses) ++ after = before ++ after := by
    intro minuses heven
    simp [netSign, minusIf, heven]
  refine ⟨?_, ?_, ?_⟩
  · have hsigns := evaluateWith_signs (s := s) hbefore hplus after
    rwa [hnone 0 rfl] at hsigns
  · have hsigns := evaluateWith_signs (s := s) hbefore hminuses after
    rwa [hnone 2 rfl] at hsigns
  · intro chain minuses hchain
    exact evaluateWith_signs hbefore hchain after

/-- An operand that is missing behind two minus signs is missing without them. -/
theorem evaluateWith_neutral_signs_empty_group :
    ExpectsOperand "2*( ".toList ∧
      evaluateWith {} "2*( --)" = .error (.invalid (.unexpectedChar ')' 6)) := by
  have hbefore : ExpectsOperand "2*( ".toList := by decide
  have hempty : evaluateWith {} ("2*( " ++ ")") = .error (.invalid (.unexpectedChar ')' 4)) := by
    rw [evaluateWith_eq_conclude, Scan.read_eq_run]
    rfl
  have hsigns := (evaluateWith_neutral_signs {} "2*( " ")" hbefore).2.1
  rw [hempty] at hsigns
  exact ⟨hbefore, hsigns⟩

end DeskCalculator
