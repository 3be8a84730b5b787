import DeskCalculator.Binary64.Encoding
import DeskCalculator.Evaluation
import DeskCalculator.Proofs.PlainForm
import DeskCalculator.Proofs.ShortestDecimal
import DeskCalculator.Proofs.SingleNumber

/-!
# What is shown is read back

A finite number is shown in plain positional form, without an exponent and without a
zero too many (`IsPlain`), and both readers take that text back to the same number, the
sign of zero included.  A number that is not finite is shown as a word, which neither
reader takes.  So two numbers that are shown alike have the same bits.

The digits are right because the search for them reads each candidate; what is left
is the way of the text through the readers, and the form of the digits.
-/

namespace DeskCalculator

open Scan

/-! ### The text of a finite number -/

theorem toChars_finite (negative : Bool) (m : Magnitude) :
    (Binary64.finite negative m).toChars = minusIf negative ++ m.shortest.toChars := by
  cases negative <;> rfl

theorem toList_text (x : Binary64) : x.text.toList = x.toChars := String.toList_ofList

theorem isPlain_text {x : Binary64} (hx : x.isFinite = true) : IsPlain x.text.toList := by
  cases x with
  | finite negative m =>
    obtain ⟨whole, fraction, hchars, hwhole, hfraction⟩ :=
      Decimal.toChars_eq_append m.coefficient_shortest_mod_ten
    refine ⟨minusIf negative, whole, fraction, ?_, ?_, hwhole, hfraction⟩
    · rw [toList_text, toChars_finite, hchars, List.append_assoc]
    · cases negative with
      | false => exact .inl rfl
      | true => exact .inr rfl
  | infinite negative => cases hx
  | nan => cases hx

/-- The decimal that is shown has the value that it shows. -/
theorem value_shortest (negative : Bool) (m : Magnitude) :
    m.shortest.value.negateIf negative = .finite negative m := by
  rw [Decimal.value, m.magnitude?_shortest]
  cases negative <;> rfl

/-! ### Through the evaluator -/

theorem feed_minusIf (d : Dialect) (negative : Bool) :
    Scan.start.feed d (minusIf negative) = some (operand [] ⟨none, none, negative⟩) := by
  cases negative <;> rfl

/-- The text of a finite number takes the machine to its end, with the number as product. -/
theorem feed_toChars (d : Dialect) {x : Binary64} (hx : x.isFinite = true) :
    ∃ state product, Scan.start.feed d x.toChars = some state ∧
      state.settle = some (operator [] none product) ∧ product.value = x := by
  cases x with
  | finite negative m =>
    have hrun := m.shortest.numeral_toChars
    refine ⟨number [] ⟨none, none, negative⟩ m.shortest.toChars,
      .negateIf negative (.number m.shortest), ?_, ?_, ?_⟩
    · rw [toChars_finite, feed_append_of_eq_some (feed_minusIf d negative)]
      exact feed_numeral hrun.head hrun.chars [] ⟨none, none, negative⟩
    · exact settle_number hrun.reads [] ⟨none, none, negative⟩
    · rw [Expr.value_negateIf, Expr.value, value_shortest]
  | infinite negative => cases hx
  | nan => cases hx

theorem read_text (d : Dialect) {x : Binary64} (hx : x.isFinite = true) :
    ∃ expr, Expr.read d x.text = .ok expr ∧ expr.value = x := by
  obtain ⟨state, product, hfeed, hsettle, hvalue⟩ := feed_toChars d hx
  refine ⟨product, ?_, hvalue⟩
  rw [Scan.read_eq_run, toList_text, run_eq_finish hfeed, finish_of_settle_nil hsettle,
    Expr.join_none]

theorem evaluateWith_of_read {s : Settings} {text : String} {expr : Expr}
    (hread : Expr.read s.dialect text = .ok expr) (hfinite : expr.value.isFinite = true) :
    evaluateWith s text = .ok expr.value := by
  simp [evaluateWith, hread, hfinite]

theorem evaluateWith_of_read_eq_error {s : Settings} {text : String} {e : SyntaxError}
    (hread : Expr.read s.dialect text = .error e) : evaluateWith s text = .error (.invalid e) := by
  simp [evaluateWith, hread]

theorem evaluateWith_text (s : Settings) {x : Binary64} (hx : x.isFinite = true) :
    evaluateWith s x.text = .ok x := by
  obtain ⟨expr, hread, rfl⟩ := read_text s.dialect hx
  exact evaluateWith_of_read hread hx

/-! ### Through the reader of single numbers -/

theorem readNumber_text {x : Binary64} (hx : x.isFinite = true) : readNumber x.text = .ok x := by
  cases x with
  | finite negative m =>
    have hchars := (toList_text _).trans (toChars_finite negative m)
    rw [readNumber_minusIf m.shortest.numeral_toChars negative hchars, value_shortest]
  | infinite negative => cases hx
  | nan => cases hx

/-! ### The other numbers -/

/-- The text goes wrong at its first letter, for every reader. -/
def IsRefusedAtFirstLetter (text : String) : Prop :=
  ∃ before letter after, text.toList = before ++ letter :: after ∧ letter.isAlpha = true ∧
    (∀ char ∈ before, char.isAlpha = false) ∧
    (∀ s, evaluateWith s text = .error (.invalid (.unexpectedChar letter before.length))) ∧
    readNumber text = .error (.unexpectedChar letter before.length)

/-- A word is refused at its first letter, however it goes on. -/
theorem isRefused_of_letter {text : String} {negative : Bool} {letter : Char} {after : List Char}
    (htext : text.toList = minusIf negative ++ letter :: after)
    (hletter : letter = 'I' ∨ letter = 'N') : IsRefusedAtFirstLetter text := by
  have hstart : Cursor.ofText text = ⟨0, minusIf negative ++ letter :: after⟩ :=
    congrArg (Cursor.mk 0) htext
  have hsign : ∀ char ∈ minusIf negative, char.isAlpha = false := by
    cases negative with
    | false => exact nofun
    | true =>
      intro char hchar
      rw [List.mem_singleton.mp hchar]
      rfl
  have hevaluate : ∀ d : Dialect, Scan.start.run d 0 (minusIf negative ++ letter :: after)
      = .error (.unexpectedChar letter (minusIf negative).length) := by
    intro d
    rcases hletter with rfl | rfl <;> cases negative <;> rfl
  have hreadNumber : readNumber text
      = .error (.unexpectedChar letter (minusIf negative).length) := by
    cases negative with
    | false =>
      have hnone : (Cursor.mk 0 (minusIf false ++ letter :: after)).accept? sign? = none := by
        rcases hletter with rfl | rfl <;> rfl
      rw [readNumber_of_no_sign hstart hnone]
      rcases hletter with rfl | rfl <;> rfl
    | true =>
      have hminus : (Cursor.mk 0 (minusIf true ++ letter :: after)).accept? sign?
          = some ⟨true, ⟨1, letter :: after⟩, Nat.lt_succ_self _⟩ := rfl
      rw [readNumber_of_sign hstart hminus]
      rcases hletter with rfl | rfl <;> rfl
  refine ⟨minusIf negative, letter, after, htext, ?_, hsign, ?_, hreadNumber⟩
  · rcases hletter with rfl | rfl
    · rfl
    · rfl
  · intro s
    apply evaluateWith_of_read_eq_error
    rw [Scan.read_eq_run, htext]
    exact hevaluate s.dialect

theorem isRefused_infinite (negative : Bool) :
    IsRefusedAtFirstLetter (Binary64.infinite negative).text := by
  have hchars : (Binary64.infinite negative).toChars
      = minusIf negative ++ 'I' :: "nfinity".toList := by
    cases negative <;> decide
  exact isRefused_of_letter ((toList_text _).trans hchars) (.inl rfl)

theorem isRefused_nan : IsRefusedAtFirstLetter Binary64.nan.text := by
  have hchars : Binary64.nan.toChars = minusIf false ++ 'N' :: "aN".toList := by decide
  exact isRefused_of_letter ((toList_text _).trans hchars) (.inr rfl)

theorem isRefused_of_not_isFinite {x : Binary64} (hx : x.isFinite = false) :
    IsRefusedAtFirstLetter x.text := by
  cases x with
  | finite negative m => cases hx
  | infinite negative => exact isRefused_infinite negative
  | nan => exact isRefused_nan

/-! ### Both ways -/

/-- A number that is shown like a finite one is that number. -/
theorem eq_of_text_eq {x y : Binary64} (hx : x.isFinite = true) (htext : x.text = y.text) :
    x = y := by
  have hread := readNumber_text hx
  cases hy : y.isFinite with
  | true =>
    rw [htext, readNumber_text hy] at hread
    exact (Except.ok.inj hread).symm
  | false =>
    obtain ⟨_, _, _, -, -, -, -, hrefused⟩ := isRefused_of_not_isFinite hy
    rw [htext, hrefused] at hread
    cases hread

/-- The numbers that are shown as words. -/
def words : List Binary64 := [.infinite false, .infinite true, .nan]

theorem mem_words {x : Binary64} (hx : x.isFinite = false) : x ∈ words := by
  cases x with
  | finite negative m => cases hx
  | infinite negative => cases negative <;> decide
  | nan => decide

theorem text_injective_on_words : ∀ x ∈ words, ∀ y ∈ words, x.text = y.text → x = y := by
  decide

theorem text_injective : Function.Injective Binary64.text := by
  intro x y htext
  cases hx : x.isFinite with
  | true => exact eq_of_text_eq hx htext
  | false =>
    cases hy : y.isFinite with
    | true => exact (eq_of_text_eq hy htext.symm).symm
    | false => exact text_injective_on_words x (mem_words hx) y (mem_words hy) htext

/-- Every finite number is shown in plain form and read back, bit for bit, by the evaluator
    under any settings and by the reader of single numbers; the text of any other is
    refused at its first letter.  So the text of a number determines its bits. -/
theorem text_round_trip :
    (∀ x : Binary64, x.isFinite = true → IsPlain x.text.toList ∧
      (∀ s, evaluateWith s x.text = .ok x) ∧ readNumber x.text = .ok x) ∧
    (∀ x : Binary64, x.isFinite = false → IsRefusedAtFirstLetter x.text) ∧
    ∀ bits bits' : UInt64, Binary64.ofBits bits ≠ .nan → Binary64.ofBits bits' ≠ .nan →
      (Binary64.ofBits bits).text = (Binary64.ofBits bits').text → bits = bits' := by
  refine ⟨?_, fun x => isRefused_of_not_isFinite, ?_⟩
  · intro x hx
    exact ⟨isPlain_text hx, fun s => evaluateWith_text s hx, readNumber_text hx⟩
  · intro bits bits' hbits hbits' htext
    rw [← Binary64.toBits_ofBits hbits, ← Binary64.toBits_ofBits hbits', text_injective htext]

end DeskCalculator
