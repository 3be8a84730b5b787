import DeskCalculator.Proofs.ErrorPlaces
import DeskCalculator.Proofs.Grammar
import Mathlib.Logic.Relation

/-!
# Spaces between symbols

Spaces separate symbols and mean nothing else.  They can be put in, or taken out, at every place
of a text that is not between two characters of a numeral, whether the text can be read or
not, and the outcome stays the same up to the places of errors (`evaluateWith_spacing`).

A space leaves the machine where it is, except that it ends a number.  Where the number ends
anyway this makes no difference, and a ruined number is reported at its end all the same.
-/

namespace DeskCalculator

open Scan

/-! ### Places in a text -/

/-- The place lies between two characters that are each a digit or a point. -/
def SplitsNumeral (text : String) (place : Nat) : Prop :=
  0 < place ∧ text.toList[place - 1]?.any Decimal.isNumeralChar = true ∧
    text.toList[place]?.any Decimal.isNumeralChar = true

instance (text : String) (place : Nat) : Decidable (SplitsNumeral text place) :=
  inferInstanceAs (Decidable (_ ∧ _))

/-- The text with so many spaces put in at the place. -/
def withSpaces (text : String) (place count : Nat) : String :=
  String.ofList (text.toList.take place ++ spaces count ++ text.toList.drop place)

/-- How many characters that are no spaces stand in front of a place. -/
def symbolsBefore (text : String) (place : Nat) : Nat :=
  (text.toList.take place).countP (· != ' ')

/-- The second text is the first with spaces put in at a place that does not split a numeral. -/
def IsSpacedOut (text text' : String) : Prop :=
  ∃ place count, place ≤ text.length ∧ ¬ SplitsNumeral text place ∧
    text' = withSpaces text place count

/-- The first text ends and the second starts with a digit or a point. -/
def JoinsNumeral (before after : List Char) : Prop :=
  before.getLast?.any Decimal.isNumeralChar = true ∧
    after.head?.any Decimal.isNumeralChar = true

theorem splitsNumeral_of_joinsNumeral {text : String} {place : Nat} (hplace : place ≤ text.length)
    (h : JoinsNumeral (text.toList.take place) (text.toList.drop place)) :
    SplitsNumeral text place := by
  obtain ⟨hlast, hhead⟩ := h
  rw [← String.length_toList] at hplace
  cases place with
  | zero => simp at hlast
  | succ place =>
    refine ⟨Nat.succ_pos place, ?_, ?_⟩
    · have hget : text.toList[place]? = some (text.toList[place]) := List.getElem?_eq_getElem hplace
      simpa [List.getLast?_take, hget] using hlast
    · simpa using hhead

/-! ### The machine at a space -/

namespace Scan

variable {d : Dialect}

/-- Within a number the text so far ends with a digit or a point. -/
theorem getLast?_of_feed_number {text : List Char} {groups : List Pending} {pending : Pending}
    {run : List Char} (h : start.feed d text = some (number groups pending run)) :
    run ≠ [] ∧ run.length ≤ text.length ∧
      text.getLast?.any Decimal.isNumeralChar = true := by
  obtain ⟨before, rfl, -, hhead, hchars⟩ := remembers_of_feed h
  have hrun : run ≠ [] := by
    rintro rfl
    simp at hhead
  refine ⟨hrun, by simp, ?_⟩
  rw [List.getLast?_append, List.getLast?_eq_some_getLast hrun]
  exact hchars _ (List.getLast_mem hrun)

/-- A number that is ruined where it ends is reported, whatever comes next. -/
theorem run_ruined {text : List Char} {groups : List Pending} {pending : Pending}
    {run : List Char} (h : start.feed d text = some (number groups pending run))
    (hrun : Decimal.ofChars? run = none) {rest : List Char}
    (hrest : rest.head?.any Decimal.isNumeralChar = false) :
    start.run d 0 (text ++ rest)
      = .error (.malformedNumber (String.ofList run) (text.length - run.length)) := by
  rw [run_append h, run_number, Decimal.takeWhile_isNumeralChar_eq_nil hrest, List.append_nil, hrun,
    Nat.zero_add]

theorem head?_spaces_append (count : Nat) (text : List Char) :
    (spaces (count + 1) ++ text).head? = some ' ' := rfl

/-- Spaces that do not split a numeral move what follows them, and nothing else. -/
theorem run_spaces {before after : List Char} (hapart : ¬ JoinsNumeral before after)
    (count : Nat) :
    start.run d 0 (before ++ spaces count ++ after)
      = (start.run d 0 (before ++ after)).mapError
          (.relocate (movedPlace before.length 0 count)) := by
  cases count with
  | zero =>
    have hstays : ∀ e : SyntaxError, e.relocate (movedPlace before.length 0 0) = e := by
      intro e
      apply SyntaxError.relocate_eq_self
      simp [movedPlace]
    rw [spaces_zero, List.append_nil]
    cases start.run d 0 (before ++ after) with
    | error e => simp only [mapError_error, hstays]
    | ok expr => rfl
  | succ count =>
    have hlength : (spaces (count + 1)).length = count + 1 := List.length_replicate
    cases hfeed : start.feed d before with
    | none =>
      rw [List.append_assoc]
      exact run_replace_of_feed_eq_none hfeed 0 (count + 1) after _
    | some s =>
      cases hs : s.ruined with
      | true =>
        obtain ⟨groups, pending, run, rfl, hrun⟩ := eq_number_of_ruined hs
        obtain ⟨hne, hle, hlast⟩ := getLast?_of_feed_number hfeed
        have hhead : after.head?.any Decimal.isNumeralChar = false := by
          apply Bool.eq_false_iff.mpr
          intro hhead
          exact hapart ⟨hlast, hhead⟩
        have hpos := List.length_pos_iff.mpr hne
        have hstays : movedPlace before.length 0 (count + 1) (before.length - run.length)
            = before.length - run.length := by
          apply if_neg
          omega
        rw [List.append_assoc, run_ruined hfeed hrun hhead,
          run_ruined hfeed hrun (by rw [head?_spaces_append]; rfl)]
        simp only [mapError_error, SyntaxError.relocate, hstays]
      | false =>
        have hpiece : ∃ t, s.feed d (spaces (count + 1)) = some t ∧ t.lookback = 0 ∧
            ∀ position, s.run d position after = t.run d position after := by
          rcases operand_or_settle_of_not_ruined hs with
            ⟨groups, pending, rfl⟩ | ⟨groups, sum, product, hsettle⟩
          · refine ⟨operand groups pending, ?_, rfl, fun position => rfl⟩
            exact feed_spaces (next?_operand_space groups pending) (count + 1)
          · refine ⟨operator groups sum product, feed_spaces_of_settle hsettle count, rfl, ?_⟩
            intro position
            -- only a number could go on, and then no numeral follows
            rcases settle_cases hsettle with
              ⟨_, _, _, rfl, hsame⟩ | ⟨_, _, _, _, rfl, -, -⟩
            · rw [hsame]
            · apply run_of_settle hsettle
              apply Bool.eq_false_iff.mpr
              intro hhead
              exact hapart ⟨(getLast?_of_feed_number hfeed).2.2, hhead⟩
        obtain ⟨t, hspaces, hback, hrest⟩ := hpiece
        have hrun := run_replace hfeed (feed_nil s) hspaces hback hrest
        rwa [List.append_nil, List.length_nil, hlength] at hrun

end Scan

/-! ### The calculator -/

section Spacing

variable {s : Settings} {text : String} {place : Nat}

theorem length_take_toList (hplace : place ≤ text.length) :
    (text.toList.take place).length = place := by
  rw [List.length_take, String.length_toList]
  exact Nat.min_eq_left hplace

theorem evaluateWith_withSpaces (hplace : place ≤ text.length)
    (hsplit : ¬ SplitsNumeral text place) (count : Nat) :
    evaluateWith s (withSpaces text place count)
      = (evaluateWith s text).mapError (.relocate (movedPlace place 0 count)) := by
  apply evaluateWith_eq_mapError
  have hlength : (text.toList.take place).length = place := length_take_toList hplace
  have hrun := run_spaces (d := s.dialect)
    (fun hjoins => hsplit (splitsNumeral_of_joinsNumeral hplace hjoins)) count
  rwa [List.take_append_drop, hlength, ← String.toList_ofList (l := _ ++ spaces count ++ _)] at hrun

/-- What putting spaces in does to the places of errors, taking them out again undoes. -/
theorem mapError_movedPlace (outcome : Except EvalError Binary64) (place count : Nat) :
    (outcome.mapError (EvalError.relocate (movedPlace place 0 count))).mapError
      (EvalError.relocate (movedPlace place count 0)) = outcome := by
  have hback : movedPlace place count 0 ∘ movedPlace place 0 count = id := by
    funext position
    simp only [movedPlace, Function.comp_apply, id_eq]
    grind
  rw [mapError_relocate_relocate, hback]
  cases outcome with
  | error e => simp only [mapError_error, EvalError.relocate_id]
  | ok x => rfl

/-- Putting spaces in leaves as many symbols in front of every place of the text. -/
theorem symbolsBefore_withSpaces (hplace : place ≤ text.length) (count : Nat) :
    symbolsBefore (withSpaces text place count) ∘ movedPlace place 0 count
      = symbolsBefore text := by
  have hlength : (text.toList.take place).length = place := length_take_toList hplace
  funext position
  simp only [symbolsBefore, withSpaces, movedPlace, Function.comp_apply, String.toList_ofList]
  by_cases hbehind : place ≤ position
  · obtain ⟨more, rfl⟩ := Nat.exists_eq_add_of_le hbehind
    have hfront : (text.toList.take place ++ spaces count).length = place + count := by
      simp [hlength, spaces]
    have htake : (text.toList.take place ++ spaces count ++ text.toList.drop place).take
        (place + more + count)
        = text.toList.take place ++ spaces count ++ (text.toList.drop place).take more := by
      rw [Nat.add_right_comm, ← hfront, List.take_length_add_append]
    have hwhole : text.toList.take (place + more)
        = text.toList.take place ++ (text.toList.drop place).take more := List.take_add
    have hspaces : (spaces count).countP (· != ' ') = 0 := by
      simp [spaces, List.countP_replicate]
    rw [if_pos hbehind, Nat.sub_zero, htake, hwhole]
    simp only [List.countP_append, hspaces, Nat.add_zero]
  · have hfront : position ≤ place := Nat.le_of_not_le hbehind
    rw [if_neg hbehind, List.append_assoc, List.take_append_of_le_length (by omega),
      List.take_take, Nat.min_eq_left hfront]

/-- Texts that differ in spaces only have their errors at the same symbol. -/
theorem mapError_symbolsBefore_of_eqvGen {text' : String}
    (h : Relation.EqvGen IsSpacedOut text text') :
    (evaluateWith s text').mapError (EvalError.relocate (symbolsBefore text'))
      = (evaluateWith s text).mapError (EvalError.relocate (symbolsBefore text)) := by
  induction h with
  | rel first second hspaced =>
    obtain ⟨place, count, hplace, hsplit, rfl⟩ := hspaced
    rw [evaluateWith_withSpaces hplace hsplit, mapError_relocate_relocate,
      symbolsBefore_withSpaces hplace]
  | refl first => rfl
  | symm first second _ ih => exact ih.symm
  | trans first second third _ _ ih ih' => exact ih'.trans ih

end Spacing

/-- Spaces can be put in and taken out wherever they do not split a numeral: the outcome is the
    same, with the errors behind them moved.  Counted in symbols, errors stay where they are,
    however often this is done. -/
theorem evaluateWith_spacing (s : Settings) (text : String) :
    (∀ place ≤ text.length, ¬ SplitsNumeral text place → ∀ count,
      evaluateWith s (withSpaces text place count)
          = (evaluateWith s text).mapError (.relocate (movedPlace place 0 count)) ∧
        evaluateWith s text
          = (evaluateWith s (withSpaces text place count)).mapError
              (.relocate (movedPlace place count 0))) ∧
    ∀ text', Relation.EqvGen IsSpacedOut text text' →
      (evaluateWith s text').mapError (EvalError.relocate (symbolsBefore text'))
        = (evaluateWith s text).mapError (EvalError.relocate (symbolsBefore text)) := by
  constructor
  · intro place hplace hsplit count
    have hspaced := evaluateWith_withSpaces (s := s) hplace hsplit count
    constructor
    · exact hspaced
    · rw [hspaced, mapError_movedPlace]
  · intro text' hspaced
    exact mapError_symbolsBefore_of_eqvGen hspaced

/-- What must not follow a group is found behind the spaces. -/
theorem evaluateWith_spacing_behind_group :
    7 ≤ "(1.5*2)3".length ∧ ¬ SplitsNumeral "(1.5*2)3" 7 ∧
      evaluateWith {} "(1.5*2)  3" = .error (.invalid (.unexpectedChar '3' 9)) := by
  have hplace : 7 ≤ "(1.5*2)3".length := by decide
  have hsplit : ¬ SplitsNumeral "(1.5*2)3" 7 := by decide
  have htext : withSpaces "(1.5*2)3" 7 2 = "(1.5*2)  3" := by decide
  have hclose : evaluateWith {} "(1.5*2)3" = .error (.invalid (.unexpectedChar '3' 7)) := by
    rw [evaluateWith_eq_conclude, Scan.read_eq_run]
    rfl
  have hspaced := ((evaluateWith_spacing {} "(1.5*2)3").1 7 hplace hsplit 2).1
  rw [htext, hclose] at hspaced
  exact ⟨hplace, hsplit, hspaced⟩

end DeskCalculator
