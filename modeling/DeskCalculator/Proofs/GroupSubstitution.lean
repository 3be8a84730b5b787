import DeskCalculator.Proofs.Chaining
import DeskCalculator.Proofs.Policies

/-!
# A group stands for its value

Inside any text, a group can be replaced by the displayed text of its value, in parentheses, and
the whole text keeps its value (`evaluateWith_group_text`).

The machine reaches the group with some operand pending, whatever came before.  What it does inside
does not depend on that (`Scan.feed_group_unique`), and behind the closing parenthesis it holds
one operand more.  With the displayed text it holds one of the same value, so the two passes
are alike from there on.
-/

namespace DeskCalculator

open Scan

variable {d : Dialect} {x : Binary64}

/-! ### The displayed text as a group -/

theorem isNumeralChar_or_minus_of_mem_toChars (hx : x.isFinite = true) {char : Char}
    (hchar : char ∈ x.toChars) : Decimal.isNumeralChar char = true ∨ char = '-' := by
  cases x with
  | finite negative m =>
    rw [toChars_finite, List.mem_append] at hchar
    rcases hchar with hsign | hdigits
    · right
      cases negative with
      | false => cases hsign
      | true => exact List.mem_singleton.mp hsign
    · left
      exact m.shortest.numeral_toChars.chars char hdigits
  | infinite negative => cases hx
  | nan => cases hx

theorem open_not_mem_toChars (hx : x.isFinite = true) : '(' ∉ x.toChars := by
  intro hopen
  rcases isNumeralChar_or_minus_of_mem_toChars hx hopen with hnumeral | hminus
  · cases hnumeral
  · exact absurd hminus (by decide)

theorem feed_group_toChars (hx : x.isFinite = true) {groups : List Pending}
    (hallows : d.allowsGroup groups.length = true) (pending : Pending) :
    ∃ operand, operand.value = x ∧
      (Scan.operand groups pending).feed d ('(' :: (x.toChars ++ [')']))
        = some (operator groups pending.sum (pending.term operand)) := by
  obtain ⟨state, product, hfeed, hsettle, hvalue⟩ := feed_toChars d hx
  have hinside := feed_under (pending :: groups) hfeed fun first rest mid hchars _ => by
    have hopen : '(' ∈ x.toChars := by
      rw [hchars]
      exact List.mem_append_right first List.mem_cons_self
    exact absurd hopen (open_not_mem_toChars hx)
  exact ⟨product, hvalue, feed_group hallows hinside hsettle⟩

/-! ### Any text around it -/

/-- Where a text is read with a group in it, that group can be replaced by the text of its value. -/
theorem readValue_group_toChars {text before after : List Char} {state : Scan}
    {sum : Option (Expr × Operator)} {product : Expr}
    (hfeed : Scan.start.feed d text = some state)
    (hsettle : state.settle = some (operator [] sum product))
    (hvalue : (product.join sum).value = x) (hx : x.isFinite = true) {expr : Expr}
    (hread : Scan.start.run d 0 (before ++ '(' :: (text ++ [')']) ++ after) = .ok expr) :
    readValue (Scan.start.run d 0 (before ++ '(' :: (x.toChars ++ [')']) ++ after))
      = some expr.value := by
  obtain ⟨last, hwhole, -⟩ := exists_feed_of_run_eq_ok hread
  rw [feed_append] at hwhole
  obtain ⟨behind, hbehind, -⟩ := Option.bind_eq_some_iff.mp hwhole
  rw [feed_append] at hbehind
  obtain ⟨reached, hreached, hgroup⟩ := Option.bind_eq_some_iff.mp hbehind
  -- the parenthesis has been passed, so an operand has to follow where the group stands
  obtain ⟨inner, hopen, -⟩ := feed_cons_eq_some_iff.mp hgroup
  obtain ⟨groups, pending, rfl, -, -⟩ := (next?_eq_some_iff.mp hopen).cases_open
  obtain ⟨hallows, rfl⟩ := feed_group_unique hfeed hsettle hgroup
  obtain ⟨operand, hoperand, htext⟩ := feed_group_toChars hx hallows pending
  have halike : Alike (operator groups pending.sum (pending.term operand))
      (operator groups pending.sum (pending.term (product.join sum))) := by
    refine .operator rfl rfl (Pending.value_term_congr rfl ?_)
    rw [hoperand, hvalue]
  have hgroupText := feed_append_of_eq_some hreached ('(' :: (x.toChars ++ [')']))
  rw [run_append (hgroupText.trans htext), halike.run _ _ after, ← run_append]
  · rw [hread]
    rfl
  · rw [feed_append_of_eq_some hreached]
    exact hgroup

/-! ### The calculator -/

theorem conclude_of_readValue {requireFinite : Bool} {reading : Except SyntaxError Expr}
    (h : readValue reading = some x) :
    conclude requireFinite reading
      = if requireFinite && !x.isFinite then .error (.notFinite x) else .ok x := by
  cases reading with
  | error e => cases h
  | ok expr =>
    cases h
    rfl

/-- A group whose text has a finite value on its own can be replaced by the text of that value, and
    what is made of the whole stays the same. -/
theorem evaluateWith_group_text (r : Settings) (u v e : String) (x : Binary64)
    (haccepted : evaluateWith { requireClosing := true } e = .ok x) (hfinite : x.isFinite = true)
    (hvalue : IsValue (evaluateWith r (u ++ "(" ++ e ++ ")" ++ v))) :
    evaluateWith r (u ++ "(" ++ x.text ++ ")" ++ v)
      = evaluateWith r (u ++ "(" ++ e ++ ")" ++ v) := by
  have htext : ∀ inside : String, (u ++ "(" ++ inside ++ ")" ++ v).toList
      = u.toList ++ '(' :: (inside.toList ++ [')']) ++ v.toList := by
    intro inside
    simp
  obtain ⟨state, sum, product, hfeed, hsettle, hproduct⟩ := exists_feed_of_accepted haccepted r
  rw [evaluateWith_eq_conclude] at hvalue
  obtain ⟨expr, hread, -⟩ := (conclude_eq_iff hvalue).mp rfl
  rw [evaluateWith_eq_conclude, evaluateWith_eq_conclude, hread]
  rw [Scan.read_eq_run, htext] at hread ⊢
  rw [toList_text]
  exact conclude_of_readValue (readValue_group_toChars hfeed hsettle hproduct hfinite hread)

/-- A negative value keeps its parentheses, and the group around it may stay open. -/
theorem evaluateWith_group_text_negative :
    evaluateWith { requireClosing := true } "1-3"
        = .ok (.finite true ⟨1024 * binadeSize, by decide⟩) ∧
      IsValue (evaluateWith {} ("(8/" ++ "(" ++ "1-3" ++ ")" ++ "*-3")) ∧
      evaluateWith {} ("(8/" ++ "(" ++ "-2" ++ ")" ++ "*-3")
        = evaluateWith {} ("(8/" ++ "(" ++ "1-3" ++ ")" ++ "*-3") := by
  have hread : Expr.read (Settings.dialect { requireClosing := true }) "1-3"
      = .ok (.binary .sub (.number ⟨1, 0⟩) (.number ⟨3, 0⟩)) := by
    rw [Scan.read_eq_run]
    rfl
  have hdifference : Decimal.value ⟨1, 0⟩ - Decimal.value ⟨3, 0⟩
      = .finite true ⟨1024 * binadeSize, by decide⟩ := by
    decide +kernel
  have haccepted : evaluateWith { requireClosing := true } "1-3"
      = .ok (.finite true ⟨1024 * binadeSize, by decide⟩) := by
    rw [← hdifference, evaluateWith, hread]
    rfl
  have hvalue : IsValue (evaluateWith {} ("(8/" ++ "(" ++ "1-3" ++ ")" ++ "*-3")) := by
    rw [evaluateWith_eq_conclude, Scan.read_eq_run]
    exact .ok _
  have htext : Binary64.text (.finite true ⟨1024 * binadeSize, by decide⟩) = "-2" := by
    decide +kernel
  have hgroup := evaluateWith_group_text {} "(8/" "*-3" "1-3" _ haccepted rfl hvalue
  rw [htext] at hgroup
  exact ⟨haccepted, hvalue, hgroup⟩

end DeskCalculator
