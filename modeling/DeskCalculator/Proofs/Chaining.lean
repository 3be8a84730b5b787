import DeskCalculator.Proofs.Actions
import DeskCalculator.Proofs.DisplayRoundTrip
import DeskCalculator.Proofs.Nesting
import DeskCalculator.Proofs.SameValues

/-!
# Going on from a result

After `=` the entry is the text of the result, and what is typed next stands behind that
text.  It might as well stand behind the calculation itself in parentheses
(`type_chain`): to the machine the text of a number and a closed group are both one
operand, and they have the same value because what is shown is read back.
-/

namespace DeskCalculator

open Scan

/-! ### Accepted texts -/

section Accepted

variable {d : Dialect} {s s' : Scan}

theorem isInputChar_of_isNumeralChar {char : Char} (h : Decimal.isNumeralChar char = true) :
    Key.isInputChar char = true := by
  by_cases hpoint : char = '.'
  · rw [hpoint]
    rfl
  · simp [Key.isInputChar, Decimal.isDigit_of_isNumeralChar h hpoint]

/-- Every character that the machine passes can be typed into the entry. -/
theorem Scan.Step.isInputChar {char : Char} (h : Step d s char s') :
    Key.isInputChar char = true := by
  cases h with
  | blank groups pending => rfl
  | sign groups pending hsign =>
    rcases sign?_cases hsign with ⟨rfl, -⟩ | ⟨rfl, -⟩
    · rfl
    · rfl
  | opening pending hallows => rfl
  | digit groups pending hchar =>
    exact isInputChar_of_isNumeralChar (Decimal.isNumeralChar_of_isDigit hchar)
  | numeral groups pending run hchar => exact isInputChar_of_isNumeralChar hchar
  | blankBehind hsettle => rfl
  | additive hsettle hop =>
    rcases Operator.additive?_cases hop with ⟨rfl, -⟩ | ⟨rfl, -⟩
    · rfl
    · rfl
  | multiplicative hsettle hop =>
    rcases Operator.multiplicative?_cases hop with ⟨rfl, -⟩ | ⟨rfl, -⟩
    · rfl
    · rfl
  | closing hsettle => rfl

theorem isInputChar_of_feed {text : List Char} (h : s.feed d text = some s') :
    ∀ char ∈ text, Key.isInputChar char = true := by
  induction text generalizing s with
  | nil => exact nofun
  | cons char text ih =>
    rcases feed_cons_eq_some_iff.mp h with ⟨next, hnext, hrest⟩
    intro other hother
    rcases List.mem_cons.mp hother with rfl | hother
    · exact (next?_eq_some_iff.mp hnext).isInputChar
    · exact ih hrest other hother

end Accepted

/-! ### Typing -/

namespace Calculator

theorem entry_pressAll_input (c : Calculator) {text : List Char}
    (htext : ∀ char ∈ text, Key.isInputChar char = true) :
    (c.pressAll (text.filterMap Key.ofChar?)).entry.toList = c.entry.toList ++ text := by
  induction text generalizing c with
  | nil => exact (List.append_nil _).symm
  | cons char text ih =>
    have hkey : Key.ofChar? char = some (.input char) := if_pos (htext char List.mem_cons_self)
    have hrest := ih (c.append char) fun other hother =>
      htext other (List.mem_cons_of_mem char hother)
    rw [List.filterMap_cons_some hkey]
    rw [append, String.toList_push, List.append_assoc, List.singleton_append] at hrest
    exact hrest

theorem entry_type (c : Calculator) {text : String}
    (htext : ∀ char ∈ text.toList, Key.isInputChar char = true) :
    (c.type text).entry = c.entry ++ text := by
  apply String.toList_injective
  rw [String.toList_append]
  exact c.entry_pressAll_input htext

theorem type_equals (c : Calculator) : c.type "=" = c.evaluateEntry := rfl

/-- An outcome wipes out everything but the settings, and an error leaves no trace. -/
theorem showOutcome_eq {ε : Type} (c : Calculator) (outcome : Except ε Binary64) :
    c.showOutcome outcome = match outcome.toOption with
      | some x => ⟨x.text, x.text, c.settings⟩
      | none => ⟨"", errorText, c.settings⟩ := by
  cases outcome <;> rfl

theorem showOutcome_congr {ε : Type} {c c' : Calculator} (hsettings : c.settings = c'.settings)
    {outcome outcome' : Except ε Binary64} (h : outcome.toOption = outcome'.toOption) :
    c.showOutcome outcome = c'.showOutcome outcome' := by
  rw [showOutcome_eq, showOutcome_eq, hsettings, h]

/-- Typing input characters and then `=` shows what the entry comes to with them. -/
theorem type_append_equals (c : Calculator) {text : String}
    (htext : ∀ char ∈ text.toList, Key.isInputChar char = true) :
    c.type (text ++ "=") = c.showOutcome (evaluateWith c.settings (c.entry ++ text)) := by
  rw [type_append, type_equals, evaluateEntry, c.entry_type htext, settings_type]
  exact showOutcome_congr (c.settings_type text) rfl

end Calculator

/-! ### The text of a value and the group that has it -/

theorem toOption_evaluateWith (s : Settings) (text : String) :
    (evaluateWith s text).toOption = (readValue (Expr.read s.dialect text)).bind fun x =>
      if s.requireFinite && !x.isFinite then none else some x := by
  unfold evaluateWith readValue
  cases Expr.read s.dialect text with
  | error e => rfl
  | ok expr =>
    simp only [Except.toOption, Option.map_some, Option.bind_some]
    generalize (s.requireFinite && !expr.value.isFinite) = refused
    cases refused <;> rfl

theorem toOption_evaluateWith_congr {s : Settings} {text text' : String}
    (h : readValue (Expr.read s.dialect text) = readValue (Expr.read s.dialect text')) :
    (evaluateWith s text).toOption = (evaluateWith s text').toOption := by
  rw [toOption_evaluateWith, toOption_evaluateWith, h]

/-- What an accepted text does to the machine, whatever has to be closed. -/
theorem exists_feed_of_accepted {text : String} {x : Binary64}
    (h : evaluateWith { requireClosing := true } text = .ok x) (r : Settings) :
    ∃ state sum product, Scan.start.feed r.dialect text.toList = some state ∧
      state.settle = some (operator [] sum product) ∧ (product.join sum).value = x := by
  have hread : ∃ expr, Expr.read (Settings.dialect { requireClosing := true }) text = .ok expr ∧
      expr.value = x := by
    unfold evaluateWith at h
    split at h
    · cases h
    · next expr hexpr => exact ⟨expr, hexpr, by simpa using h⟩
  obtain ⟨expr, hexpr, rfl⟩ := hread
  rw [Scan.read_eq_run] at hexpr
  obtain ⟨state, hfeed, hfinish⟩ := exists_feed_of_run_eq_ok hexpr
  obtain ⟨sum, product, hsettle, rfl⟩ := settle_of_finish_eq_ok rfl hfinish
  exact ⟨state, sum, product, (feed_congr rfl _ _).trans hfeed, hsettle, rfl⟩

/-- In parentheses the text is one operand. -/
theorem feed_group_of_nestedAtMost {text : List Char} {r : Settings} {state : Scan}
    {sum : Option (Expr × Operator)} {product : Expr}
    (hfeed : Scan.start.feed r.dialect text = some state)
    (hsettle : state.settle = some (operator [] sum product)) (hnested : NestedAtMost 255 text) :
    Scan.start.feed r.dialect ('(' :: (text ++ [')']))
      = some (operator [] none (product.join sum)) := by
  have hinside := feed_under_of_nestedAtMost [Pending.start] hfeed hnested fun depth hdepth =>
    decide_eq_true (show depth < maxGroupDepth from hdepth)
  exact feed_group (by rfl) hinside hsettle

/-- Behind either, every continuation comes to the same. -/
theorem readValue_chain {text : String} {x : Binary64} {r : Settings}
    (haccepted : evaluateWith { requireClosing := true } text = .ok x)
    (hfinite : x.isFinite = true) (hnested : NestedAtMost 255 text.toList) {more : List Char}
    (hmore : more.head?.any Decimal.isNumeralChar = false) :
    readValue (Scan.start.run r.dialect 0 (x.toChars ++ more))
      = readValue (Scan.start.run r.dialect 0 ('(' :: (text.toList ++ [')']) ++ more)) := by
  obtain ⟨state, sum, product, hfeed, hsettle, hvalue⟩ := exists_feed_of_accepted haccepted r
  obtain ⟨state', product', hfeed', hsettle', hvalue'⟩ := feed_toChars r.dialect hfinite
  rw [run_append hfeed', run_append (feed_group_of_nestedAtMost hfeed hsettle hnested),
    run_of_settle hsettle' hmore]
  refine Alike.run (.operator rfl rfl ?_) _ _ more
  rw [hvalue, hvalue']

/-- Typing on behind a result is typing on behind the calculation in parentheses. -/
theorem type_chain (r : Settings) (e s : String) (x : Binary64)
    (haccepted : evaluateWith { requireClosing := true } e = .ok x) (hfinite : x.isFinite = true)
    (hnested : NestedAtMost 255 e.toList)
    (hinput : ∀ char ∈ s.toList, Key.isInputChar char = true)
    (hfirst : s.toList.head?.any Decimal.isNumeralChar = false) :
    (Calculator.new r).type (e ++ "=" ++ s ++ "=")
      = (Calculator.new r).type ("(" ++ e ++ ")" ++ s ++ "=") := by
  obtain ⟨state, sum, product, hfeed, hsettle, hvalue⟩ := exists_feed_of_accepted haccepted r
  have he : ∀ char ∈ e.toList, Key.isInputChar char = true := isInputChar_of_feed hfeed
  have hread : Expr.read r.dialect e = .ok (product.join sum) := by
    rw [Scan.read_eq_run, run_eq_finish hfeed, finish_of_settle_nil hsettle]
  have hresult : evaluateWith r e = .ok x := by
    rw [evaluateWith_of_read hread (by rw [hvalue, hfinite]), hvalue]
  have hgroup : ∀ char ∈ ("(" ++ e ++ ")" ++ s).toList, Key.isInputChar char = true := by
    intro char hchar
    simp only [String.toList_append, List.mem_append] at hchar
    rcases hchar with ((hchar | hchar) | hchar) | hchar
    · rw [List.mem_singleton.mp hchar]
      rfl
    · exact he char hchar
    · rw [List.mem_singleton.mp hchar]
      rfl
    · exact hinput char hchar
  have hfirstEquals : (Calculator.new r).type (e ++ "=") = ⟨x.text, x.text, r⟩ := by
    rw [Calculator.type_append_equals _ he, Calculator.new, String.empty_append, hresult]
    rfl
  rw [String.append_assoc, Calculator.type_append, hfirstEquals,
    Calculator.type_append_equals _ hinput, Calculator.type_append_equals _ hgroup]
  refine Calculator.showOutcome_congr rfl (toOption_evaluateWith_congr ?_)
  rw [Scan.read_eq_run, Scan.read_eq_run, String.toList_append, toList_text]
  have hgroupText : ((Calculator.new r).entry ++ ("(" ++ e ++ ")" ++ s)).toList
      = '(' :: (e.toList ++ [')']) ++ s.toList := by
    simp [Calculator.new]
  rw [hgroupText]
  exact readValue_chain haccepted hfinite hnested hfirst

/-- A negative result is multiplied as a whole. -/
theorem type_chain_negative : ∃ x, evaluateWith { requireClosing := true } "1-3" = .ok x ∧
    x.isFinite = true ∧
    (Calculator.new {}).type ("1-3" ++ "=" ++ "*2" ++ "=")
      = (Calculator.new {}).type ("(" ++ "1-3" ++ ")" ++ "*2" ++ "=") := by
  have hread : Expr.read (Settings.dialect { requireClosing := true }) "1-3"
      = .ok (.binary .sub (.number ⟨1, 0⟩) (.number ⟨3, 0⟩)) := by
    rw [Scan.read_eq_run]
    rfl
  have haccepted : evaluateWith { requireClosing := true } "1-3"
      = .ok (Decimal.value ⟨1, 0⟩ - Decimal.value ⟨3, 0⟩) := by
    rw [evaluateWith, hread]
    rfl
  have hfinite : (Decimal.value ⟨1, 0⟩ - Decimal.value ⟨3, 0⟩).isFinite = true := by
    decide +kernel
  have hnested : NestedAtMost 255 "1-3".toList := by
    unfold NestedAtMost
    decide
  have hinput : ∀ char ∈ "*2".toList, Key.isInputChar char = true := List.all_eq_true.mp rfl
  exact ⟨_, haccepted, hfinite,
    type_chain {} "1-3" "*2" _ haccepted hfinite hnested hinput rfl⟩

end DeskCalculator
