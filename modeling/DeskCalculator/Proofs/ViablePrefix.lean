import DeskCalculator.Evaluation
import DeskCalculator.Proofs.OnePassReader
import DeskCalculator.Proofs.OnePassSteps

/-!
# An error stands where no text can go on

A text is refused at the first place behind which nothing can save it: what lies
before the place is the beginning of an accepted text, and what lies up to and with it
is not (`viablePrefix_of_fails`).  Only a text that stops too early can be continued.

The machine of one pass stops in one of two ways: at a character that it cannot pass, or at
the end.  In both the place is where the number it was reading has started, if that number is
ruined, and where it stopped otherwise.  In every other state the text so far can be
completed.
-/

namespace DeskCalculator

open Scan

/-! ### Texts and their errors -/

/-- The text is refused with the error. -/
def Fails (s : Settings) (text : List Char) (e : SyntaxError) : Prop :=
  evaluateWith s (String.ofList text) = .error (.invalid e)

/-- The text is not refused; whether it has an acceptable value is another matter. -/
def Accepts (s : Settings) (text : List Char) : Prop := ∀ e, ¬ Fails s text e

/-- What an error says about the text, beside the place. -/
def Blames (s : Settings) (text : List Char) : SyntaxError → Prop
  | .unexpectedChar char p => text[p]? = some char ∧ char ≠ ' ' ∧
      ∀ rest, Fails s (text.take (p + 1) ++ rest) (.unexpectedChar char p)
  | .nestedTooDeep p => text[p]? = some '(' ∧
      ∀ rest, Fails s (text.take (p + 1) ++ rest) (.nestedTooDeep p)
  | .malformedNumber run p => text[p]?.any Char.isDigit = true ∧
      run.toList = (text.drop p).takeWhile Decimal.isNumeralChar ∧ 2 ≤ run.toList.count '.' ∧
      ∀ rest, ∃ run', Fails s (text.take (p + run.length) ++ rest) (.malformedNumber run' p) ∧
        run.toList <+: run'.toList
  | .unexpectedEnd p => p = text.length

theorem fails_iff {s : Settings} {text : List Char} {e : SyntaxError} :
    Fails s text e ↔ start.run s.dialect 0 text = .error e := by
  unfold Fails evaluateWith
  rw [Scan.read_eq_run, String.toList_ofList]
  cases start.run s.dialect 0 text with
  | error e' => simp
  | ok expr =>
    simp only [reduceCtorEq, iff_false]
    split
    · simp
    · simp

theorem accepts_iff {s : Settings} {text : List Char} :
    Accepts s text ↔ ∃ expr, start.run s.dialect 0 text = .ok expr := by
  simp only [Accepts, fails_iff]
  cases start.run s.dialect 0 text with
  | error e => simp
  | ok expr => simp

/-! ### Where a pass stops -/

section Stops

variable {d : Dialect}

theorem run_reject {s : Scan} {first : List Char} (hfeed : start.feed d first = some s)
    {char : Char} (hnext : s.next? d char = none) (rest : List Char) :
    start.run d 0 (first ++ char :: rest) = .error (s.reject first.length char) := by
  rw [run_append hfeed, Nat.zero_add]
  simp only [Scan.run, hnext]

/-- A pass fails at a character that it cannot pass, or at the end. -/
theorem run_eq_error {s : Scan} {position : Nat} {text : List Char} {e : SyntaxError}
    (h : s.run d position text = .error e) :
    (∃ first char rest s', text = first ++ char :: rest ∧ s.feed d first = some s' ∧
      s'.next? d char = none ∧ e = s'.reject (position + first.length) char) ∨
    ∃ s', s.feed d text = some s' ∧ s'.finish d (position + text.length) = .error e := by
  induction text generalizing s position with
  | nil => exact .inr ⟨s, rfl, h⟩
  | cons char text ih =>
    cases hnext : s.next? d char with
    | none =>
      simp only [Scan.run, hnext, Except.error.injEq] at h
      exact .inl ⟨[], char, text, s, rfl, rfl, hnext, h.symm⟩
    | some next =>
      simp only [Scan.run, hnext] at h
      rcases ih h with ⟨first, char', rest, s', rfl, hfeed, hstop, rfl⟩ | ⟨s', hfeed, hfinish⟩
      · have hfeed' := feed_cons_eq_some_iff.mpr ⟨next, hnext, hfeed⟩
        refine .inl ⟨char :: first, char', rest, s', rfl, hfeed', hstop, ?_⟩
        rw [List.length_cons, Nat.add_assoc, Nat.add_comm 1]
      · refine .inr ⟨s', feed_cons_eq_some_iff.mpr ⟨next, hnext, hfeed⟩, ?_⟩
        rw [List.length_cons, Nat.add_comm text.length, ← Nat.add_assoc]
        exact hfinish

/-- At the end of a text nothing but more text can help. -/
theorem finish_eq_error {s : Scan} (hs : s.ruined = false) {position : Nat} {e : SyntaxError}
    (h : s.finish d position = .error e) : e = .unexpectedEnd position := by
  rcases operand_or_settle_of_not_ruined hs with
    ⟨groups, pending, rfl⟩ | ⟨groups, sum, product, hsettle⟩
  · exact (Except.error.inj h).symm
  · rw [finish_of_settle hsettle, finish, finishOperator] at h
    split at h
    · exact (Except.error.inj h).symm
    · cases h

theorem next?_space_ne_none {s : Scan} (hs : s.ruined = false) : s.next? d ' ' ≠ none := by
  rcases operand_or_settle_of_not_ruined hs with
    ⟨groups, pending, rfl⟩ | ⟨groups, sum, product, hsettle⟩
  · exact Option.some_ne_none _
  · rw [(Step.blankBehind hsettle).next?]
    exact Option.some_ne_none _

/-- Where the machine stops at a character in good order, it names the character or the limit. -/
theorem reject_eq {s : Scan} (hs : s.ruined = false) (position : Nat) (char : Char) :
    s.reject position char = .unexpectedChar char position ∨
      (char = '(' ∧ s.reject position char = .nestedTooDeep position) := by
  rcases operand_or_settle_of_not_ruined hs with
    ⟨groups, pending, rfl⟩ | ⟨groups, sum, product, hsettle⟩
  · by_cases hchar : char = '('
    · exact .inr ⟨hchar, if_pos hchar⟩
    · exact .inl (if_neg hchar)
  · exact .inl (reject_of_settle hsettle position char)

end Stops

/-! ### What the errors say -/

/-- All that is claimed of an error. -/
structure Diagnosed (s : Settings) (text : List Char) (e : SyntaxError) : Prop where
  position_le : e.position ≤ text.length
  completable : ∃ rest, Accepts s (text.take e.position ++ rest)
  blames : Blames s text e

variable {s : Settings}

theorem exists_accepts {state : Scan} {first : List Char}
    (hfeed : start.feed s.dialect first = some state) (hstate : state.ruined = false) :
    ∃ rest, Accepts s (first ++ rest) := by
  obtain ⟨rest, expr, hrest⟩ := exists_completion (d := s.dialect) hstate
  refine ⟨rest, accepts_iff.mpr ⟨expr, ?_⟩⟩
  rw [run_append hfeed, hrest]

theorem diagnosed_reject {state : Scan} {first rest : List Char} {char : Char}
    (hfeed : start.feed s.dialect first = some state) (hstate : state.ruined = false)
    (hnext : state.next? s.dialect char = none) :
    Diagnosed s (first ++ char :: rest) (state.reject first.length char) := by
  have hchar : char ≠ ' ' := by
    rintro rfl
    exact next?_space_ne_none hstate hnext
  have hget : (first ++ char :: rest)[first.length]? = some char := by simp
  have htake : (first ++ char :: rest).take first.length = first := List.take_left
  have htake' : (first ++ char :: rest).take (first.length + 1) = first ++ [char] := by
    rw [List.append_cons]
    exact List.take_left' List.length_append
  have hfail : ∀ more, Fails s ((first ++ char :: rest).take (first.length + 1) ++ more)
      (state.reject first.length char) := by
    intro more
    rw [fails_iff, htake', ← List.append_cons]
    exact run_reject hfeed hnext more
  have hlength : first.length ≤ (first ++ char :: rest).length := by simp
  have hcompletable := exists_accepts hfeed hstate
  rw [← htake] at hcompletable
  rcases reject_eq hstate first.length char with hreject | ⟨rfl, hreject⟩
  · rw [hreject] at hfail ⊢
    exact ⟨hlength, hcompletable, hget, hchar, hfail⟩
  · rw [hreject] at hfail ⊢
    exact ⟨hlength, hcompletable, hget, hfail⟩

/-- A ruined number is blamed from its first digit to the last of its characters. -/
theorem diagnosed_ruined {groups : List Pending} {pending : Pending} {first run rest : List Char}
    (hfeed : start.feed s.dialect first = some (number groups pending run))
    (hrun : Decimal.ofChars? run = none)
    (hrest : rest.head?.any Decimal.isNumeralChar = false) :
    Diagnosed s (first ++ rest)
      (.malformedNumber (String.ofList run) (first.length - run.length)) := by
  obtain ⟨before, rfl, hbefore, hhead, hchars⟩ := remembers_of_feed hfeed
  have hposition : (before ++ run).length - run.length = before.length := by simp
  have htake : (before ++ (run ++ rest)).take before.length = before := List.take_left
  have htake' : (before ++ run ++ rest).take (before.length + run.length) = before ++ run :=
    List.take_left' List.length_append
  have hmaximal : (run ++ rest).takeWhile Decimal.isNumeralChar = run := by
    rw [List.takeWhile_append_of_pos hchars]
    cases rest with
    | nil => rw [List.takeWhile_nil, List.append_nil]
    | cons char rest =>
      have hchar : Decimal.isNumeralChar char = false := by simpa using hrest
      rw [List.takeWhile_cons_of_neg (by simp [hchar]), List.append_nil]
  have hcompletable := exists_accepts hbefore rfl
  rw [← htake, ← List.append_assoc] at hcompletable
  rw [hposition]
  refine ⟨?_, hcompletable, ?_, ?_, ?_, ?_⟩
  · simp [SyntaxError.position]
  · cases run with
    | nil => cases hhead
    | cons char run => simpa using hhead
  · rw [String.toList_ofList, List.append_assoc, List.drop_left, hmaximal]
  · rw [String.toList_ofList]
    exact Decimal.ofChars?_eq_none_iff.mp hrun
  · intro more
    have hspoilt : Decimal.ofChars? (run ++ more.takeWhile Decimal.isNumeralChar) = none := by
      rw [Decimal.ofChars?_eq_none_iff] at hrun ⊢
      rw [List.count_append]
      exact Nat.le_add_right_of_le hrun
    refine ⟨String.ofList (run ++ more.takeWhile Decimal.isNumeralChar), ?_, ?_⟩
    · rw [fails_iff, String.length_ofList, htake', run_append hfeed, run_number, hspoilt]
      simp
    · rw [String.toList_ofList, String.toList_ofList]
      exact List.prefix_append run _

theorem diagnosed_of_fails {text : List Char} {e : SyntaxError} (h : Fails s text e) :
    Diagnosed s text e := by
  rcases run_eq_error (fails_iff.mp h) with
    ⟨first, char, rest, state, rfl, hfeed, hnext, rfl⟩ | ⟨state, hfeed, hfinish⟩
  · rw [Nat.zero_add]
    cases hstate : state.ruined with
    | false => exact diagnosed_reject hfeed hstate hnext
    | true =>
      obtain ⟨groups, pending, run, rfl, hrun⟩ := eq_number_of_ruined hstate
      have hchar : Decimal.isNumeralChar char = false := by
        refine Bool.eq_false_iff.mpr fun hchar => ?_
        rw [next?_number_numeral hchar] at hnext
        cases hnext
      have hreject : (number groups pending run).reject first.length char
          = .malformedNumber (String.ofList run) (first.length - run.length) := by
        simp only [reject, hrun]
      rw [hreject]
      exact diagnosed_ruined hfeed hrun hchar
  · rw [Nat.zero_add] at hfinish
    cases hstate : state.ruined with
    | false =>
      obtain rfl := finish_eq_error hstate hfinish
      refine ⟨Nat.le_refl _, ?_, rfl⟩
      rw [SyntaxError.position, List.take_length]
      exact exists_accepts hfeed hstate
    | true =>
      obtain ⟨groups, pending, run, rfl, hrun⟩ := eq_number_of_ruined hstate
      simp only [finish, hrun, Except.error.injEq] at hfinish
      have hdiagnosed : Diagnosed s (text ++ []) _ := diagnosed_ruined hfeed hrun rfl
      rwa [List.append_nil, hfinish] at hdiagnosed

/-- What is blamed for more than the end of the text cannot be saved by more text. -/
theorem not_accepts_append {text : List Char} {e : SyntaxError} (h : Blames s text e)
    (he : e ≠ .unexpectedEnd text.length) (rest : List Char) : ¬ Accepts s (text ++ rest) := by
  have hsplit : ∀ n, text ++ rest = text.take n ++ (text.drop n ++ rest) := by
    intro n
    rw [← List.append_assoc, List.take_append_drop]
  intro haccepts
  cases e with
  | unexpectedChar char position =>
    obtain ⟨-, -, hfails⟩ := h
    rw [hsplit (position + 1)] at haccepts
    exact haccepts _ (hfails _)
  | unexpectedEnd position => exact he (congrArg SyntaxError.unexpectedEnd h)
  | malformedNumber run position =>
    obtain ⟨-, -, -, hfails⟩ := h
    rw [hsplit (position + run.length)] at haccepts
    obtain ⟨run', hfail, -⟩ := hfails (text.drop (position + run.length) ++ rest)
    exact haccepts _ hfail
  | nestedTooDeep position =>
    obtain ⟨-, hfails⟩ := h
    rw [hsplit (position + 1)] at haccepts
    exact haccepts _ (hfails _)

/-- An error of the text is an error of every text that goes on, but for a text that stops
    too early, and what lies before the place can always be completed. -/
theorem viablePrefix_of_fails (s : Settings) (text : List Char) (e : SyntaxError)
    (h : Fails s text e) :
    e.position ≤ text.length ∧ (∃ rest, Accepts s (text.take e.position ++ rest)) ∧
      Blames s text e ∧
      ((∃ rest, Accepts s (text ++ rest)) ↔ ∃ p, e = .unexpectedEnd p) := by
  obtain ⟨hposition, hcompletable, hblames⟩ := diagnosed_of_fails h
  refine ⟨hposition, hcompletable, hblames, ?_⟩
  constructor
  · rintro ⟨rest, haccepts⟩
    by_cases he : e = .unexpectedEnd text.length
    · exact ⟨text.length, he⟩
    · exact absurd haccepts (not_accepts_append hblames he rest)
  · rintro ⟨p, rfl⟩
    obtain rfl : p = text.length := hblames
    rwa [SyntaxError.position, List.take_length] at hcompletable

theorem viablePrefix_of_open_group :
    Fails {} ['(', '1', '+'] (.unexpectedEnd 3) ∧
      ∃ rest, Accepts {} (['(', '1', '+'] ++ rest) := by
  have hfails : Fails {} ['(', '1', '+'] (.unexpectedEnd 3) := fails_iff.mpr rfl
  exact ⟨hfails, (viablePrefix_of_fails {} _ _ hfails).2.2.2.mpr ⟨3, rfl⟩⟩

end DeskCalculator
