import DeskCalculator.Proofs.DisplayRoundTrip
import DeskCalculator.Proofs.GrammarCompleteness

/-!
# The form of a single number

`readNumber` takes exactly the texts that are one number with at most one sign, and spaces
anywhere but within the number (`IsSingleNumber`).  They are a fragment of the language of
expressions, and the evaluator gives them the same value.  Every other text is refused, at the
first place behind which nothing can save it (`readNumber_iff_isSingleNumber`).

Every text starts with a lead, spaces with or without a sign among them, and behind the lead the
reader looks for a run of digits and points and then for the end of the text.  So there are five
cases (`exists_readsAs`), and in each of them the reader's answer can be written down.
-/

namespace DeskCalculator

open Scan

/-! ### The form -/

/-- One number: spaces, at most one sign, spaces, digits with or without a point and more
    digits behind it, and spaces. -/
def IsSingleNumber (text : List Char) : Prop :=
  ∃ before sign between digits fraction after,
    text = spaces before ++ sign ++ spaces between ++ digits ++ fraction ++ spaces after ∧
      (sign = [] ∨ sign = ['+'] ∨ sign = ['-']) ∧
      digits ≠ [] ∧ (∀ char ∈ digits, char.isDigit = true) ∧
      (fraction = [] ∨ ∃ places, fraction = '.' :: places ∧
        ∀ char ∈ places, char.isDigit = true)

/-- What may stand in front of the digits: spaces, and a sign among them or none. -/
inductive Lead : (signed negative : Bool) → List Char → Prop where
  | unsigned (blanks : Nat) : Lead false false (spaces blanks)
  | signed {sign : Char} {negative : Bool} (before between : Nat) :
      sign? sign = some negative → Lead true negative (spaces before ++ sign :: spaces between)

/-- Nothing at the start of the text can belong to the lead in front of it. -/
def EndsLead (signed : Bool) (text : List Char) : Prop :=
  ∀ char, text.head? = some char → char ≠ ' ' ∧ (signed = false → sign? char = none)

theorem EndsLead.head?_ne {signed : Bool} {text : List Char} (h : EndsLead signed text) :
    text.head? ≠ some ' ' := by
  intro hspace
  exact (h ' ' hspace).1 rfl

theorem exists_spaces (text : List Char) :
    ∃ blanks rest, text = spaces blanks ++ rest ∧ rest.head? ≠ some ' ' := by
  obtain ⟨blanks, hrest⟩ := (Cursor.mk 0 text).rest_eq_spaces
  exact ⟨blanks, _, hrest, (Cursor.mk 0 text).current_skipSpaces_ne⟩

/-- Every text starts with a lead, be it empty. -/
theorem exists_lead (text : List Char) :
    ∃ signed negative lead rest, text = lead ++ rest ∧ Lead signed negative lead ∧
      EndsLead signed rest := by
  obtain ⟨blanks, rest, rfl, hspace⟩ := exists_spaces text
  have hunsigned : (∀ char, rest.head? = some char → sign? char = none) →
      EndsLead false rest := by
    intro hnone char hhead
    refine ⟨?_, fun _ => hnone char hhead⟩
    rintro rfl
    exact hspace hhead
  cases rest with
  | nil => exact ⟨false, false, _, [], rfl, .unsigned blanks, hunsigned nofun⟩
  | cons char rest =>
    cases hsign : sign? char with
    | none =>
      refine ⟨false, false, _, char :: rest, rfl, .unsigned blanks, hunsigned ?_⟩
      intro other hother
      rwa [← Option.some.inj hother]
    | some negative =>
      obtain ⟨between, rest, rfl, hspace'⟩ := exists_spaces rest
      refine ⟨true, negative, _, rest, ?_, .signed blanks between hsign, ?_⟩
      · simp only [List.append_assoc, List.cons_append]
      · intro other hother
        refine ⟨?_, nofun⟩
        rintro rfl
        exact hspace' hother

/-- A numeral is digits with or without a fraction. -/
theorem isSingleNumber_iff {text : List Char} : IsSingleNumber text ↔
    ∃ signed negative lead run decimal after, text = lead ++ run ++ spaces after ∧
      Lead signed negative lead ∧ Decimal.Numeral run decimal := by
  constructor
  · rintro ⟨before, sign, between, digits, fraction, after, rfl, hsign, hdigits, hall, hfraction⟩
    have hlead : ∃ signed negative,
        Lead signed negative (spaces before ++ sign ++ spaces between) := by
      rcases hsign with rfl | rfl | rfl
      · refine ⟨false, false, ?_⟩
        rw [List.append_nil, ← spaces_add]
        exact .unsigned (before + between)
      · refine ⟨true, false, ?_⟩
        rw [List.append_assoc]
        exact .signed before between rfl
      · refine ⟨true, true, ?_⟩
        rw [List.append_assoc]
        exact .signed before between rfl
    have hnumeral : ∃ decimal, Decimal.Numeral (digits ++ fraction) decimal := by
      rcases hfraction with rfl | ⟨places, rfl, hplaces⟩
      · rw [List.append_nil]
        exact ⟨_, Decimal.numeral_whole hdigits hall⟩
      · exact ⟨_, Decimal.numeral_point hdigits hall hplaces⟩
    obtain ⟨signed, negative, hlead⟩ := hlead
    obtain ⟨decimal, hnumeral⟩ := hnumeral
    exact ⟨signed, negative, _, _, decimal, after, by simp only [List.append_assoc], hlead, hnumeral⟩
  · rintro ⟨signed, negative, lead, run, decimal, after, rfl, hlead, hnumeral⟩
    have hparts : ∃ before sign between, lead = spaces before ++ sign ++ spaces between ∧
        (sign = [] ∨ sign = ['+'] ∨ sign = ['-']) := by
      cases hlead with
      | unsigned blanks => exact ⟨blanks, [], 0, by simp, .inl rfl⟩
      | signed before between hsign =>
        rcases sign?_cases hsign with ⟨rfl, -⟩ | ⟨rfl, -⟩
        · exact ⟨before, ['+'], between, by simp, .inr (.inl rfl)⟩
        · exact ⟨before, ['-'], between, by simp, .inr (.inr rfl)⟩
    obtain ⟨before, sign, between, rfl, hsign⟩ := hparts
    rcases hnumeral.cases with ⟨hrun, hall, -⟩ | ⟨whole, places, rfl, hwhole, hall, hplaces, -⟩
    · exact ⟨before, sign, between, run, [], after, by simp, hsign, hrun, hall, .inl rfl⟩
    · exact ⟨before, sign, between, whole, '.' :: places, after, by simp, hsign, hwhole, hall,
        .inr ⟨places, rfl, hplaces⟩⟩

/-! ### The reader behind a lead -/

theorem skipSpaces_spaces {rest : List Char} (hrest : rest.head? ≠ some ' ')
    (position blanks : Nat) :
    (Cursor.mk position (spaces blanks ++ rest)).skipSpaces = ⟨position + blanks, rest⟩ := by
  induction blanks generalizing position with
  | zero => exact skipSpaces_of_head? hrest
  | succ blanks ih =>
    have hstep : (Cursor.mk position (spaces (blanks + 1) ++ rest)).skipSpaces
        = (Cursor.mk (position + 1) (spaces blanks ++ rest)).skipSpaces := by
      simp [spaces, List.replicate_succ, Cursor.skipSpaces, Cursor.takeWhile, Nat.add_assoc,
        Nat.add_comm 1]
    rw [hstep, ih, Nat.add_assoc, Nat.add_comm 1]

theorem accept?_of_skipSpaces {α : Type} {table : Char → Option α} {c : Cursor} {position : Nat}
    {char : Char} {rest : List Char} {entry : α} (hskip : c.skipSpaces = ⟨position, char :: rest⟩)
    (htable : table char = some entry) :
    ∃ reading, c.accept? table = some reading ∧ reading.value = entry ∧
      reading.next = ⟨position + 1, rest⟩ := by
  unfold Cursor.accept?
  generalize c.length_rest_skipSpaces_le = hlength
  revert hlength
  rw [hskip]
  intro hlength
  simp [Cursor.acceptHere?, htable]

theorem accept?_eq_none {α : Type} {table : Char → Option α} {c : Cursor} {position : Nat}
    {rest : List Char} (hskip : c.skipSpaces = ⟨position, rest⟩)
    (htable : ∀ char, rest.head? = some char → table char = none) : c.accept? table = none := by
  unfold Cursor.accept?
  generalize c.length_rest_skipSpaces_le = hlength
  revert hlength
  rw [hskip]
  intro hlength
  cases rest with
  | nil => rfl
  | cons char rest => simp [Cursor.acceptHere?, htable char rfl]

/-- The reader passes the lead and keeps its sign. -/
theorem readNumber_lead {text : String} {signed negative : Bool} {lead rest : List Char}
    (hlead : Lead signed negative lead) (hrest : EndsLead signed rest)
    (htext : text.toList = lead ++ rest) :
    readNumber text = readUnsigned negative ⟨lead.length, rest⟩ := by
  have hstart : Cursor.ofText text = ⟨0, lead ++ rest⟩ := congrArg (Cursor.mk 0) htext
  cases hlead with
  | unsigned blanks =>
    have hskip := skipSpaces_spaces hrest.head?_ne 0 blanks
    have hnone := accept?_eq_none hskip fun char hhead => (hrest char hhead).2 rfl
    rw [readNumber_of_no_sign hstart hnone, hskip]
    simp [spaces]
  | @signed sign _ before between hsign =>
    rw [List.append_assoc, List.cons_append] at hstart
    have hne : (sign :: (spaces between ++ rest)).head? ≠ some ' ' := by
      intro hspace
      rw [Option.some.inj hspace] at hsign
      cases hsign
    obtain ⟨reading, haccept, hvalue, hnext⟩ :=
      accept?_of_skipSpaces (skipSpaces_spaces hne 0 before) hsign
    rw [readNumber_of_sign hstart haccept, hvalue, hnext, skipSpaces_spaces hrest.head?_ne]
    simp [spaces, Nat.add_assoc, Nat.add_comm 1]

/-! ### The reader behind the digits -/

section Digits

variable {run rest : List Char} {decimal : Decimal}

theorem readUnsigned_of_no_digit (hdigit : rest.head?.any Char.isDigit = false) (negative : Bool)
    (position : Nat) :
    readUnsigned negative ⟨position, rest⟩ = .error (Cursor.mk position rest).errorHere := by
  have hcurrent : (Cursor.mk position rest).current.any Char.isDigit = false := hdigit
  simp [readUnsigned, Cursor.decimal, hcurrent]

/-- The run at the cursor goes as far as the characters satisfy the test. -/
theorem takeWhile_run {test : Char → Bool} (hrun : ∀ char ∈ run, test char = true)
    (hrest : rest.head?.any test = false) (position : Nat) :
    (Cursor.mk position (run ++ rest)).takeWhile test
      = (run, ⟨position + run.length, rest⟩) := by
  have hstop : rest.takeWhile test = [] ∧ rest.dropWhile test = rest := by
    cases rest with
    | nil => exact ⟨rfl, rfl⟩
    | cons char rest =>
      have hchar : test char = false := by simpa using hrest
      simp [hchar]
  simp [Cursor.takeWhile, List.takeWhile_append_of_pos hrun, List.dropWhile_append_of_pos hrun,
    hstop]

theorem atNumber_run (hhead : run.head?.any Char.isDigit = true)
    (hrun : ∀ char ∈ run, Decimal.isNumeralChar char = true)
    (hrest : rest.head?.any Decimal.isNumeralChar = false) (position : Nat) :
    (Cursor.mk position (run ++ rest)).AtNumber run where
  digit := by
    cases run with
    | nil => simp at hhead
    | cons char run => exact hhead
  run_eq := by rw [takeWhile_run hrun hrest]

theorem readUnsigned_of_ruined (hhead : run.head?.any Char.isDigit = true)
    (hrun : ∀ char ∈ run, Decimal.isNumeralChar char = true)
    (hrest : rest.head?.any Decimal.isNumeralChar = false) (hnone : Decimal.ofChars? run = none)
    (negative : Bool) (position : Nat) :
    readUnsigned negative ⟨position, run ++ rest⟩
      = .error (.malformedNumber (String.ofList run) position) := by
  rw [readUnsigned, (atNumber_run hhead hrun hrest position).decimal_of_none hnone]

theorem readUnsigned_of_reads (hnumeral : Decimal.Numeral run decimal)
    (hrest : rest.head?.any Decimal.isNumeralChar = false) (negative : Bool) (position : Nat) :
    readUnsigned negative ⟨position, run ++ rest⟩
      = (Cursor.mk (position + run.length) rest).finish.map
          fun _ => decimal.value.negateIf negative := by
  have hstart := atNumber_run hnumeral.head hnumeral.chars hrest position
  obtain ⟨reading, hread, hnext, hvalue⟩ := hstart.decimal_of_some hnumeral.reads
  rw [takeWhile_run hnumeral.chars hrest] at hnext
  simp only [readUnsigned, hread, hnext, hvalue]
  cases (Cursor.mk (position + run.length) rest).finish with
  | error e => rfl
  | ok => rfl

theorem finish_spaces (position blanks : Nat) :
    (Cursor.mk position (spaces blanks)).finish = .ok () := by
  have hskip : (Cursor.mk position (spaces blanks ++ [])).skipSpaces = ⟨position + blanks, []⟩ :=
    skipSpaces_spaces (by simp) position blanks
  rw [List.append_nil] at hskip
  simp [Cursor.finish, hskip, Cursor.atEnd]

theorem finish_spaces_char {char : Char} (hchar : char ≠ ' ') (position blanks : Nat) :
    (Cursor.mk position (spaces blanks ++ char :: rest)).finish
      = .error (.unexpectedChar char (position + blanks)) := by
  have hhead : (char :: rest).head? ≠ some ' ' := by simpa using hchar
  have hskip := skipSpaces_spaces hhead position blanks
  simp [Cursor.finish, hskip, Cursor.atEnd, Cursor.errorHere, Cursor.current]

end Digits

/-! ### The five cases -/

/-- What the reader says of a text, in every case there is. -/
inductive ReadsAs : List Char → Except SyntaxError Binary64 → Prop where
  /-- No digit comes, because the text is over. -/
  | missing {signed negative : Bool} {lead : List Char} :
      Lead signed negative lead → ReadsAs lead (.error (.unexpectedEnd lead.length))
  /-- Something else comes instead of a digit. -/
  | stray {signed negative : Bool} {lead : List Char} {char : Char} (rest : List Char) :
      Lead signed negative lead → EndsLead signed [char] → char.isDigit = false →
      ReadsAs (lead ++ char :: rest) (.error (.unexpectedChar char lead.length))
  /-- The run of digits and points has too many points. -/
  | ruined {signed negative : Bool} {lead run rest : List Char} :
      Lead signed negative lead → run.head?.any Char.isDigit = true →
      (∀ char ∈ run, Decimal.isNumeralChar char = true) → Decimal.ofChars? run = none →
      rest.head?.any Decimal.isNumeralChar = false →
      ReadsAs (lead ++ run ++ rest) (.error (.malformedNumber (String.ofList run) lead.length))
  /-- The text is a number. -/
  | number {signed negative : Bool} {lead run : List Char} {decimal : Decimal} (after : Nat) :
      Lead signed negative lead → Decimal.Numeral run decimal →
      ReadsAs (lead ++ run ++ spaces after) (.ok (decimal.value.negateIf negative))
  /-- Something comes behind a number. -/
  | trailing {signed negative : Bool} {lead run : List Char} {decimal : Decimal} {after : Nat}
      {char : Char} (rest : List Char) :
      Lead signed negative lead → Decimal.Numeral run decimal → char ≠ ' ' →
      (spaces after ++ [char]).head?.any Decimal.isNumeralChar = false →
      ReadsAs (lead ++ run ++ spaces after ++ char :: rest)
        (.error (.unexpectedChar char (lead ++ run ++ spaces after).length))

theorem endsLead_of_digit {signed : Bool} {run rest : List Char}
    (hhead : run.head?.any Char.isDigit = true) : EndsLead signed (run ++ rest) := by
  cases run with
  | nil => simp at hhead
  | cons first run =>
    intro char hchar
    have hdigit : char.isDigit = true := by
      obtain rfl : first = char := by simpa using hchar
      simpa using hhead
    refine ⟨?_, fun _ => sign?_of_isDigit hdigit⟩
    rintro rfl
    cases hdigit

/-- In each case the reader says so. -/
theorem ReadsAs.readNumber {text : String} {chars : List Char}
    {outcome : Except SyntaxError Binary64} (h : ReadsAs chars outcome)
    (htext : text.toList = chars) : readNumber text = outcome := by
  cases h with
  | @missing signed _ _ hlead =>
    have hend : EndsLead signed [] := nofun
    rw [← List.append_nil chars] at htext
    rw [readNumber_lead hlead hend htext, readUnsigned_of_no_digit rfl]
    rfl
  | @stray signed _ _ char rest hlead hends hdigit =>
    have hbehind : EndsLead signed (char :: rest) := hends
    have hhead : (char :: rest).head?.any Char.isDigit = false := hdigit
    rw [readNumber_lead hlead hbehind htext, readUnsigned_of_no_digit hhead]
    rfl
  | ruined hlead hhead hrun hnone hrest =>
    rw [List.append_assoc] at htext
    rw [readNumber_lead hlead (endsLead_of_digit hhead) htext]
    exact readUnsigned_of_ruined hhead hrun hrest hnone _ _
  | number after hlead hnumeral =>
    have hafter : (spaces after).head?.any Decimal.isNumeralChar = false := by
      cases after <;> rfl
    rw [List.append_assoc] at htext
    rw [readNumber_lead hlead (endsLead_of_digit hnumeral.head) htext,
      readUnsigned_of_reads hnumeral hafter, finish_spaces]
    rfl
  | @trailing _ _ _ _ _ after char rest hlead hnumeral hchar hafter =>
    have hbehind : (spaces after ++ char :: rest).head?.any Decimal.isNumeralChar = false := by
      cases after with
      | zero => exact hafter
      | succ after => exact hafter
    rw [List.append_assoc, List.append_assoc] at htext
    rw [readNumber_lead hlead (endsLead_of_digit hnumeral.head) htext,
      readUnsigned_of_reads hnumeral hbehind, finish_spaces_char hchar]
    simp [Except.map, spaces, Nat.add_assoc]

/-- A text that starts with a digit starts with a run of digits and points, and something else
    follows the run. -/
theorem exists_run {char : Char} (hdigit : char.isDigit = true) (text : List Char) :
    ∃ run more, char :: text = run ++ more ∧ run.head?.any Char.isDigit = true ∧
      (∀ other ∈ run, Decimal.isNumeralChar other = true) ∧
      more.head?.any Decimal.isNumeralChar = false := by
  have hchar := Decimal.isNumeralChar_of_isDigit hdigit
  refine ⟨(char :: text).takeWhile Decimal.isNumeralChar,
    (char :: text).dropWhile Decimal.isNumeralChar, List.takeWhile_append_dropWhile.symm, ?_,
    List.all_eq_true.mp List.all_takeWhile, ?_⟩
  · simp [hchar, hdigit]
  · have hstop := List.head?_dropWhile_not Decimal.isNumeralChar (char :: text)
    cases hhead : ((char :: text).dropWhile Decimal.isNumeralChar).head? with
    | none => rfl
    | some other =>
      rw [hhead] at hstop
      simpa using hstop

/-- There are no other cases. -/
theorem exists_readsAs (chars : List Char) : ∃ outcome, ReadsAs chars outcome := by
  obtain ⟨signed, negative, lead, rest, rfl, hlead, hends⟩ := exists_lead chars
  cases rest with
  | nil =>
    rw [List.append_nil]
    exact ⟨_, .missing hlead⟩
  | cons char rest =>
    cases hdigit : char.isDigit with
    | false =>
      refine ⟨_, .stray rest hlead ?_ hdigit⟩
      intro other hother
      exact hends other hother
    | true =>
      obtain ⟨run, more, hsplit, hhead, hrun, hmore⟩ := exists_run hdigit rest
      rw [hsplit, ← List.append_assoc]
      cases hreads : Decimal.ofChars? run with
      | none => exact ⟨_, .ruined hlead hhead hrun hreads hmore⟩
      | some decimal =>
        have hnumeral : Decimal.Numeral run decimal := ⟨hhead, hrun, hreads⟩
        obtain ⟨after, tail, rfl, hspace⟩ := exists_spaces more
        rw [← List.append_assoc]
        cases tail with
        | nil =>
          rw [List.append_nil]
          exact ⟨_, .number after hlead hnumeral⟩
        | cons other tail =>
          refine ⟨_, .trailing tail hlead hnumeral ?_ ?_⟩
          · simpa using hspace
          · cases after with
            | zero => exact hmore
            | succ after => exact hmore

/-! ### Values -/

variable {signed negative : Bool} {lead run : List Char} {decimal : Decimal}

theorem feed_lead (d : Dialect) (hlead : Lead signed negative lead) :
    Scan.start.feed d lead = some (operand [] ⟨none, none, negative⟩) := by
  cases hlead with
  | unsigned blanks => exact feed_spaces (next?_operand_space [] .start) blanks
  | signed before between hsign =>
    have hbefore := feed_spaces (next?_operand_space (d := d) [] .start) before
    have hnext := next?_operand_sign (d := d) hsign [] .start
    rw [Pending.sign, Pending.start, Bool.false_xor] at hnext
    refine (feed_append_of_eq_some hbefore _).trans (feed_cons_eq_some_iff.mpr ⟨_, hnext, ?_⟩)
    exact feed_spaces (next?_operand_space [] _) between

/-- The evaluator reads a single number as what it is. -/
theorem evaluate_of_number {text : String} {after : Nat} (hlead : Lead signed negative lead)
    (hnumeral : Decimal.Numeral run decimal) (htext : text.toList = lead ++ run ++ spaces after) :
    evaluate text = .ok (decimal.value.negateIf negative) := by
  have hrun := feed_numeral (d := Settings.dialect {}) hnumeral.head hnumeral.chars []
    ⟨none, none, negative⟩
  have hsettle := settle_number hnumeral.reads [] ⟨none, none, negative⟩
  obtain ⟨last, hspaces, hlast⟩ := settle_feed_spaces (d := Settings.dialect {}) hsettle after
  have hfeed : Scan.start.feed (Settings.dialect {}) text.toList = some last := by
    rw [htext, List.append_assoc, feed_append_of_eq_some (feed_lead _ hlead),
      feed_append_of_eq_some hrun, hspaces]
  have hread : Expr.read (Settings.dialect {}) text
      = .ok (.negateIf negative (.number decimal)) := by
    rw [Scan.read_eq_run, run_eq_finish hfeed, finish_of_settle_nil hlast]
    rfl
  have hvalue : (Expr.negateIf negative (.number decimal)).value
      = decimal.value.negateIf negative := Expr.value_negateIf negative _
  rw [evaluate, evaluateWith, hread]
  simp [hvalue]

/-! ### Errors -/

/-- What an error of the reader says about the text. -/
def BlamesNumber (text : List Char) : SyntaxError → Prop
  | .unexpectedEnd p => p = text.length
  | .unexpectedChar char p => text[p]? = some char ∧
      ∀ rest x, readNumber (String.ofList (text.take (p + 1) ++ rest)) ≠ .ok x
  | .malformedNumber run p => run.toList = (text.drop p).takeWhile Decimal.isNumeralChar ∧
      2 ≤ run.toList.count '.'
  | .nestedTooDeep _ => False

/-- Some number starts with the text. -/
def StartsNumber (text : List Char) : Prop :=
  ∃ rest x, readNumber (String.ofList (text ++ rest)) = .ok x

theorem startsNumber_lead (hlead : Lead signed negative lead) : StartsNumber lead := by
  have hzero : Decimal.Numeral ['0'] ⟨0, 0⟩ := Decimal.numeral_toChars ⟨0, 0⟩
  refine ⟨['0'], _, (ReadsAs.number 0 hlead hzero).readNumber ?_⟩
  rw [String.toList_ofList, spaces_zero, List.append_nil]

theorem startsNumber_of_number (hlead : Lead signed negative lead)
    (hnumeral : Decimal.Numeral run decimal) (after : Nat) :
    StartsNumber (lead ++ run ++ spaces after) := by
  refine ⟨[], _, (ReadsAs.number after hlead hnumeral).readNumber ?_⟩
  rw [String.toList_ofList, List.append_nil]

/-- A character that cannot follow is refused however the text goes on. -/
theorem blamesNumber_char {before : List Char} {char : Char} (rest : List Char)
    (h : ∀ more, ReadsAs (before ++ char :: more) (.error (.unexpectedChar char before.length))) :
    BlamesNumber (before ++ char :: rest) (.unexpectedChar char before.length) := by
  have htake : (before ++ char :: rest).take (before.length + 1) = before ++ [char] := by
    rw [List.append_cons]
    exact List.take_left' List.length_append
  refine ⟨by simp, ?_⟩
  intro more x hread
  rw [htake, ← List.append_cons, (h more).readNumber String.toList_ofList] at hread
  cases hread

/-- All that is claimed of an error of the reader. -/
structure DiagnosedNumber (text : List Char) (e : SyntaxError) : Prop where
  position_le : e.position ≤ text.length
  completable : StartsNumber (text.take e.position)
  blames : BlamesNumber text e

theorem ReadsAs.diagnosed {chars : List Char} {e : SyntaxError}
    (h : ReadsAs chars (.error e)) : DiagnosedNumber chars e := by
  cases h with
  | missing hlead =>
    refine ⟨Nat.le_refl _, ?_, rfl⟩
    rw [SyntaxError.position, List.take_length]
    exact startsNumber_lead hlead
  | stray rest hlead hends hdigit =>
    refine ⟨by simp [SyntaxError.position], ?_, ?_⟩
    · rw [SyntaxError.position, List.take_left]
      exact startsNumber_lead hlead
    · exact blamesNumber_char rest fun more => .stray more hlead hends hdigit
  | ruined hlead hhead hrun hnone hrest =>
    refine ⟨by simp [SyntaxError.position], ?_, ?_⟩
    · rw [SyntaxError.position, List.append_assoc, List.take_left]
      exact startsNumber_lead hlead
    · refine ⟨?_, ?_⟩
      · rw [String.toList_ofList, List.append_assoc, List.drop_left,
          List.takeWhile_append_of_pos hrun, Decimal.takeWhile_isNumeralChar_eq_nil hrest,
          List.append_nil]
      · rw [String.toList_ofList]
        exact Decimal.ofChars?_eq_none_iff.mp hnone
  | trailing rest hlead hnumeral hchar hafter =>
    refine ⟨by simp [SyntaxError.position], ?_, ?_⟩
    · rw [SyntaxError.position, List.take_left]
      exact startsNumber_of_number hlead hnumeral _
    · exact blamesNumber_char rest fun more => .trailing more hlead hnumeral hchar hafter

/-! ### The reader as a whole -/

/-- The reader of single numbers accepts the texts that have the form of one, and the evaluator
    gives them the same value; its errors stand where the text stops being the beginning of a
    number. -/
theorem readNumber_iff_isSingleNumber (text : String) :
    ((∃ x, readNumber text = .ok x) ↔ IsSingleNumber text.toList) ∧
      (∀ x, readNumber text = .ok x → evaluate text = .ok x) ∧
      ∀ e, readNumber text = .error e → e.position ≤ text.length ∧
        StartsNumber (text.toList.take e.position) ∧ BlamesNumber text.toList e := by
  obtain ⟨outcome, hreads⟩ := exists_readsAs text.toList
  have hread := hreads.readNumber rfl
  have hvalue : ∀ x, readNumber text = .ok x →
      IsSingleNumber text.toList ∧ evaluate text = .ok x := by
    intro x hx
    rw [hx] at hread
    subst hread
    generalize htext : text.toList = chars at hreads
    cases hreads with
    | number after hlead hnumeral =>
      constructor
      · exact isSingleNumber_iff.mpr ⟨_, _, _, _, _, after, rfl, hlead, hnumeral⟩
      · exact evaluate_of_number hlead hnumeral htext
  refine ⟨⟨?_, ?_⟩, ?_, ?_⟩
  · rintro ⟨x, hx⟩
    exact (hvalue x hx).1
  · intro hform
    obtain ⟨signed, negative, lead, run, decimal, after, htext, hlead, hnumeral⟩ :=
      isSingleNumber_iff.mp hform
    exact ⟨_, (ReadsAs.number after hlead hnumeral).readNumber htext⟩
  · intro x hx
    exact (hvalue x hx).2
  · intro e he
    rw [he] at hread
    subst hread
    obtain ⟨hposition, hcompletable, hblames⟩ := hreads.diagnosed
    rw [String.length_toList] at hposition
    exact ⟨hposition, hcompletable, hblames⟩

end DeskCalculator
