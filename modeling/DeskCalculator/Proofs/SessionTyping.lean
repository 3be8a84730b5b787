import DeskCalculator.Proofs.Chaining
import DeskCalculator.Proofs.TextLines

/-!
# A session is the typing of its input

Line breaks are no keys, so a session leaves its calculator as typing the whole input does,
wherever the line breaks stand.  They only say when the screen is shown: after each line, as the
lines so far have left it (`Session.foldl_readLine`).  A screen is one line itself, since nothing
that is typed puts a line break into the display (`Legible.type`).

Both follow step by step: the first by induction over the lines, for a session that is already
under way; the second from what each key keeps.
-/

namespace DeskCalculator

/-! ### Typing lines -/

/-- The characters that end lines. -/
def isLineBreak (char : Char) : Bool := char == '\n' || char == '\r'

theorem isLineBreak_iff {char : Char} : isLineBreak char = true ↔ char = '\n' ∨ char = '\r' := by
  rw [isLineBreak, Bool.or_eq_true, beq_iff_eq, beq_iff_eq]

theorem ofChar?_of_isLineBreak {char : Char} (h : isLineBreak char = true) :
    Key.ofChar? char = none := by
  rcases isLineBreak_iff.mp h with rfl | rfl
  · rfl
  · rfl

/-- A text in one line. -/
def withoutLineBreaks (text : String) : String :=
  String.ofList (text.toList.filter (!isLineBreak ·))

namespace Calculator

/-- Types one line after the other. -/
def typeLines (c : Calculator) (lines : List String) : Calculator := lines.foldl type c

theorem typeLines_map_ofList (c : Calculator) (lines : List (List Char)) :
    c.typeLines (lines.map String.ofList)
      = (lines.flatMap (List.filterMap Key.ofChar?)).foldl press c := by
  unfold typeLines
  induction lines generalizing c with
  | nil => rfl
  | cons line lines ih =>
    rw [List.map_cons, List.foldl_cons, ih, List.flatMap_cons, List.foldl_append, type,
      String.toList_ofList]

/-- Typing the lines of a text is typing the text. -/
theorem typeLines_textLines (c : Calculator) (text : String) :
    c.typeLines (textLines text) = c.type text := by
  unfold textLines type
  rw [typeLines_map_ofList, flatMap_filterMap_charLines rfl rfl]

theorem type_withoutLineBreaks (c : Calculator) (text : String) :
    c.type (withoutLineBreaks text) = c.type text := by
  have hkeys : ∀ char, (if !isLineBreak char then Key.ofChar? char else none)
      = Key.ofChar? char := by
    intro char
    cases hbreak : isLineBreak char with
    | true => exact (ofChar?_of_isLineBreak hbreak).symm
    | false => rfl
  unfold type withoutLineBreaks
  rw [String.toList_ofList, List.filterMap_filter]
  simp only [hkeys]

end Calculator

/-! ### What is on the screen -/

/-- The characters of a display: those that can be typed into the entry, and letters. -/
def isDisplayChar (char : Char) : Bool := Key.isInputChar char || char.isAlpha

def IsLegible (text : String) : Prop := ∀ char ∈ text.toList, isDisplayChar char = true

theorem isLegible_empty : IsLegible "" := nofun

theorem isLegible_errorText : IsLegible errorText := List.all_eq_true.mp rfl

theorem isInputChar_of_mem_text {x : Binary64} (hx : x.isFinite = true) :
    ∀ char ∈ x.text.toList, Key.isInputChar char = true := by
  obtain ⟨state, product, hfeed, -⟩ := feed_toChars ⟨false, none⟩ hx
  rw [toList_text]
  exact isInputChar_of_feed hfeed

theorem isLegible_text (x : Binary64) : IsLegible x.text := by
  cases x with
  | finite negative m =>
    intro char hchar
    rw [isDisplayChar, isInputChar_of_mem_text (x := .finite negative m) rfl char hchar,
      Bool.true_or]
  | infinite negative =>
    cases negative with
    | false => exact List.all_eq_true.mp rfl
    | true => exact List.all_eq_true.mp rfl
  | nan => exact List.all_eq_true.mp rfl

theorem IsLegible.isLineBreak_eq_false {text : String} (h : IsLegible text) {char : Char}
    (hchar : char ∈ text.toList) : isLineBreak char = false := by
  have hdisplay := h char hchar
  cases hbreak : isLineBreak char with
  | false => rfl
  | true =>
    rcases isLineBreak_iff.mp hbreak with rfl | rfl
    · cases hdisplay
    · cases hdisplay

theorem isInputChar_of_ofChar? {char typed : Char} (h : Key.ofChar? char = some (.input typed)) :
    Key.isInputChar typed = true := by
  unfold Key.ofChar? at h
  split at h
  case isTrue hinput =>
    cases h
    exact hinput
  case isFalse =>
    split at h
    all_goals cases h

namespace Calculator

structure Legible (c : Calculator) : Prop where
  entry : IsLegible c.entry
  display : IsLegible c.display

theorem legible_new (r : Settings) : (new r).Legible := ⟨isLegible_empty, isLegible_empty⟩

theorem legible_showOutcome {ε : Type} (c : Calculator) (outcome : Except ε Binary64) :
    (c.showOutcome outcome).Legible := by
  cases outcome with
  | ok x => exact ⟨isLegible_text x, isLegible_text x⟩
  | error e => exact ⟨isLegible_empty, isLegible_errorText⟩

theorem Legible.press {c : Calculator} (h : c.Legible) {char : Char} {key : Key}
    (hkey : Key.ofChar? char = some key) : (c.press key).Legible := by
  cases key with
  | input typed =>
    have hentry : IsLegible (c.entry.push typed) := by
      intro other hother
      rw [String.toList_push, List.mem_append, List.mem_singleton] at hother
      rcases hother with hother | rfl
      · exact h.entry other hother
      · rw [isDisplayChar, isInputChar_of_ofChar? hkey, Bool.true_or]
    exact ⟨hentry, hentry⟩
  | equals => exact legible_showOutcome c _
  | clear => exact ⟨isLegible_empty, isLegible_empty⟩
  | backspace =>
    unfold Calculator.press Calculator.backspace
    dsimp only
    split
    case isTrue => exact h
    case isFalse =>
      have hentry : IsLegible (String.ofList c.entry.toList.dropLast) := by
        intro other hother
        rw [String.toList_ofList] at hother
        exact h.entry other (List.dropLast_subset _ hother)
      exact ⟨hentry, hentry⟩
  | squareRoot => exact legible_showOutcome c _
  | square => exact legible_showOutcome c _

/-- What every key keeps that can be typed, a text keeps. -/
theorem type_keeps {P : Calculator → Prop}
    (hpress : ∀ c char key, Key.ofChar? char = some key → P c → P (c.press key))
    {c : Calculator} (h : P c) (text : String) : P (c.type text) := by
  unfold Calculator.type
  generalize text.toList = chars
  induction chars generalizing c with
  | nil => exact h
  | cons char chars ih =>
    rw [List.filterMap_cons]
    split
    · exact ih h
    · next key hkey => exact ih (hpress c char key hkey h)

theorem Legible.type {c : Calculator} (h : c.Legible) (text : String) : (c.type text).Legible :=
  type_keeps (fun _ _ _ hkey h => h.press hkey) h text

theorem Legible.typeLines {c : Calculator} (h : c.Legible) (lines : List String) :
    (c.typeLines lines).Legible := by
  unfold Calculator.typeLines
  induction lines generalizing c with
  | nil => exact h
  | cons line lines ih => exact ih (h.type line)

theorem Legible.isLineBreak_screen {c : Calculator} (h : c.Legible) :
    ∀ char ∈ c.screen.toList, isLineBreak char = false := by
  intro char hchar
  unfold screen List.leftpad at hchar
  simp only [String.toList_append, String.toList_ofList, List.mem_append] at hchar
  rcases hchar with (hchar | hchar | hchar) | hchar
  · rw [List.mem_singleton.mp hchar]
    rfl
  · rw [List.eq_of_mem_replicate hchar]
    rfl
  · exact h.display.isLineBreak_eq_false hchar
  · rw [List.mem_singleton.mp hchar]
    rfl

end Calculator

/-! ### Sessions -/

namespace Session

theorem readLine_of_text {s : Session} {errors : Nat} (hrunning : s.errors = .ok errors)
    {line : List UInt8} {text : String} (htext : String.fromUTF8? line.toByteArray = some text) :
    s.readLine line =
      { calculator := s.calculator.type text
        output := s.output ++ (s.calculator.type text).screen ++ "\n"
        errors := .ok (errors + if (s.calculator.type text).inError then 1 else 0) } := by
  unfold readLine
  rw [hrunning, htext]
  dsimp only
  cases (s.calculator.type text).inError <;> rfl

/-- What further lines do to a session that has not stopped. -/
theorem foldl_readLine (s : Session) {errors : Nat} (hrunning : s.errors = .ok errors)
    {lines : List (List UInt8)} {texts : List String}
    (htexts : lines.map (fun line => String.fromUTF8? line.toByteArray) = texts.map some) :
    lines.foldl readLine s =
      { calculator := s.calculator.typeLines texts
        output := s.output ++ String.join ((List.range texts.length).map fun i =>
          (s.calculator.typeLines (texts.take (i + 1))).screen ++ "\n")
        errors := .ok (errors + (List.range texts.length).countP fun i =>
          (s.calculator.typeLines (texts.take (i + 1))).inError) } := by
  -- each line leaves another session behind, and the states are counted from that one on
  induction texts generalizing s errors lines with
  | nil =>
    rw [List.map_nil, List.map_eq_nil_iff] at htexts
    subst htexts
    cases s with
    | mk calculator output result =>
      cases hrunning
      exact congrArg (Session.mk calculator · (.ok errors)) String.append_empty.symm
  | cons text texts ih =>
    rw [List.map_cons, List.map_eq_cons_iff] at htexts
    obtain ⟨line, more, rfl, htext, hmore⟩ := htexts
    rw [List.foldl_cons, readLine_of_text hrunning htext, ih _ rfl hmore, List.length_cons,
      List.range_succ_eq_map, List.map_cons, List.map_map, String.join_cons, List.countP_cons,
      List.countP_map, ← String.append_assoc, ← String.append_assoc, Nat.add_right_comm,
      ← Nat.add_assoc]
    rfl

end Session

/-- The calculator as so many lines of a text leave it. -/
def Calculator.afterLines (c : Calculator) (text : String) (count : Nat) : Calculator :=
  c.typeLines ((textLines text).take count)

/-- A session is the typing of its input: it ends as the whole input leaves the calculator, and
    has shown one line for each line. -/
theorem session_eq_type (r : Settings) (input : List UInt8) (text : String)
    (hinput : String.fromUTF8? input.toByteArray = some text) :
    (lines input).map (fun line => String.fromUTF8? line.toByteArray) = (textLines text).map some ∧
    ((Calculator.new r).session input).calculator = (Calculator.new r).type text ∧
    ((Calculator.new r).session input).calculator
      = (Calculator.new r).type (withoutLineBreaks text) ∧
    ((Calculator.new r).session input).output
      = String.join ((List.range (textLines text).length).map fun i =>
          ((Calculator.new r).afterLines text (i + 1)).screen ++ "\n") ∧
    (∀ count, ∀ char ∈ ((Calculator.new r).afterLines text count).screen.toList,
      isLineBreak char = false) ∧
    ((Calculator.new r).session input).errors
      = .ok ((List.range (textLines text).length).countP fun i =>
          ((Calculator.new r).afterLines text (i + 1)).inError) := by
  have hlines : (lines input).map (fun line => String.fromUTF8? line.toByteArray)
      = (textLines text).map some := by
    rw [fromUTF8?_eq_some_iff.mp hinput, lines_encode, textLines, List.map_map, List.map_map]
    refine List.map_congr_left fun line _ => fromUTF8?_eq_some_iff.mpr ?_
    rw [String.toList_ofList]
  have hsession := Session.foldl_readLine (.start (Calculator.new r)) rfl hlines
  rw [← Calculator.session, Session.start, Calculator.typeLines_textLines, String.empty_append,
    Nat.zero_add] at hsession
  rw [hsession, Calculator.type_withoutLineBreaks]
  refine ⟨hlines, rfl, rfl, rfl, fun count => ?_, rfl⟩
  exact ((Calculator.legible_new r).typeLines _).isLineBreak_screen

theorem session_eq_type_after_error :
    String.fromUTF8? [40, 13, 10, 61, 10, 49].toByteArray = some "(\r\n=\n1" ∧
    ((Calculator.new {}).session [40, 13, 10, 61, 10, 49]).calculator = ⟨"1", "1", {}⟩ ∧
    ((Calculator.new {}).session [40, 13, 10, 61, 10, 49]).output
      = "[                       (]\n[                   Error]\n[                       1]\n" ∧
    ((Calculator.new {}).session [40, 13, 10, 61, 10, 49]).errors = .ok 1 := by
  have hinput : String.fromUTF8? [40, 13, 10, 61, 10, 49].toByteArray = some "(\r\n=\n1" :=
    fromUTF8?_eq_some_iff.mpr (by decide)
  obtain ⟨-, hcalculator, -, houtput, -, herrors⟩ :=
    session_eq_type {} [40, 13, 10, 61, 10, 49] "(\r\n=\n1" hinput
  have hlines : textLines "(\r\n=\n1" = ["(", "=", "1"] := by decide
  have hread : Expr.read (Settings.dialect {}) "(" = .error (.unexpectedEnd 1) := by
    rw [Scan.read_eq_run]
    rfl
  have herror : ((Calculator.new {}).type "(").type "=" = ⟨"", errorText, {}⟩ := by
    rw [Calculator.type_equals, Calculator.evaluateEntry]
    show Calculator.showOutcome _ (evaluateWith {} "(") = _
    rw [evaluateWith, hread]
    rfl
  have hfirst : (Calculator.new {}).afterLines "(\r\n=\n1" 1 = ⟨"(", "(", {}⟩ := by
    rw [Calculator.afterLines, hlines]
    decide
  have hsecond : (Calculator.new {}).afterLines "(\r\n=\n1" 2 = ⟨"", errorText, {}⟩ := by
    rw [Calculator.afterLines, hlines]
    exact herror
  have hthird : (Calculator.new {}).afterLines "(\r\n=\n1" 3 = ⟨"1", "1", {}⟩ := by
    rw [Calculator.afterLines, hlines]
    exact congrArg (Calculator.type · "1") herror
  refine ⟨hinput, ?_, ?_, ?_⟩
  · rw [hcalculator, ← Calculator.typeLines_textLines, hlines, ← hthird, Calculator.afterLines,
      hlines]
    rfl
  · rw [houtput, hlines]
    show String.join [Calculator.screen _ ++ "\n", Calculator.screen _ ++ "\n",
      Calculator.screen _ ++ "\n"] = _
    rw [hfirst, hsecond, hthird]
    decide
  · rw [herrors, hlines]
    show Except.ok (List.countP _ [0, 1, 2]) = _
    simp only [List.countP_cons, List.countP_nil, hfirst, hsecond, hthird]
    rfl

end DeskCalculator
