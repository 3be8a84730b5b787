import DeskCalculator.Proofs.ErrorFlag
import DeskCalculator.Proofs.SessionTyping
import DeskCalculator.Proofs.ValueMachine

/-!
# What a keyboard can put into the entry

Typed characters come into the entry one by one, results as a whole, and backspaces cut off either
at any point.  So the entry holds typed characters only, or it starts with what is left of a
word for a number that is not finite (`KeyboardEntry`): this is what every key keeps
(`KeyboardEntry.press`).

Nothing is ever computed with such a word, however much of it is left and whatever is typed
behind it, because its first letter stands where a number has to start.  And it never reads `Error`,
so that on a keyboard the display tells whether the calculator is in error
(`keyboardState_of_typed`).
-/

namespace DeskCalculator

/-! ### The two forms of an entry -/

/-- The words that show the numbers that are not finite. -/
def wordTexts : List String := ["Infinity", "-Infinity", "NaN"]

def IsTyped (text : List Char) : Prop := ∀ char ∈ text, Key.isInputChar char = true

/-- The beginning of a word, as far as a letter of it at least, and typed characters behind it. -/
def HoldsWord (entry : List Char) : Prop :=
  ∃ word ∈ wordTexts, ∃ kept more, entry = kept ++ more ∧ kept <+: word.toList ∧
    (∃ letter ∈ kept, letter.isAlpha = true) ∧ IsTyped more

def KeyboardEntry (entry : String) : Prop := IsTyped entry.toList ∨ HoldsWord entry.toList

theorem isTyped_nil : IsTyped [] := nofun

theorem IsTyped.concat {text : List Char} (h : IsTyped text) {char : Char}
    (hchar : Key.isInputChar char = true) : IsTyped (text ++ [char]) := by
  intro other hother
  rcases List.mem_append.mp hother with hother | hother
  · exact h other hother
  · rw [List.mem_singleton.mp hother]
    exact hchar

theorem IsTyped.dropLast {text : List Char} (h : IsTyped text) : IsTyped text.dropLast := by
  intro char hchar
  exact h char (List.dropLast_subset text hchar)

/-- Before its first letter a word has a sign at most. -/
theorem exists_letter_of_mem_wordTexts {word : String} (h : word ∈ wordTexts) :
    ∃ negative letter after, word.toList = minusIf negative ++ letter :: after ∧
      (letter = 'I' ∨ letter = 'N') := by
  simp only [wordTexts, List.mem_cons, List.not_mem_nil, or_false] at h
  rcases h with rfl | rfl | rfl
  · exact ⟨false, 'I', "nfinity".toList, by decide, .inl rfl⟩
  · exact ⟨true, 'I', "nfinity".toList, by decide, .inl rfl⟩
  · exact ⟨false, 'N', "aN".toList, by decide, .inr rfl⟩

theorem isInputChar_or_isAlpha_of_mem_word {word : String} (h : word ∈ wordTexts) {char : Char}
    (hchar : char ∈ word.toList) : Key.isInputChar char = true ∨ char.isAlpha = true := by
  have hall : (wordTexts.all fun word => word.toList.all isDisplayChar) = true := by decide
  have hword := List.all_eq_true.mp hall word h
  exact Bool.or_eq_true_iff.mp (List.all_eq_true.mp hword char hchar)

theorem prefix_of_letter {negative : Bool} {letter : Char} {kept after : List Char}
    (hbegins : kept <+: minusIf negative ++ letter :: after)
    (hletter : ∃ letter ∈ kept, letter.isAlpha = true) :
    ∃ rest, kept = minusIf negative ++ letter :: rest := by
  obtain ⟨char, hchar, halpha⟩ := hletter
  cases negative with
  | false =>
    rcases List.prefix_cons_iff.mp hbegins with rfl | ⟨rest, rfl, -⟩
    · simp at hchar
    · exact ⟨rest, rfl⟩
  | true =>
    rcases List.prefix_cons_iff.mp hbegins with rfl | ⟨rest, rfl, hrest⟩
    · simp at hchar
    · rcases List.prefix_cons_iff.mp hrest with rfl | ⟨rest, rfl, -⟩
      · rw [List.mem_singleton.mp hchar] at halpha
        cases halpha
      · exact ⟨rest, rfl⟩

namespace HoldsWord

variable {entry : List Char}

theorem concat (h : HoldsWord entry) {char : Char} (hchar : Key.isInputChar char = true) :
    HoldsWord (entry ++ [char]) := by
  obtain ⟨word, hword, kept, more, rfl, hbegins, hletter, hmore⟩ := h
  refine ⟨word, hword, kept, more ++ [char], ?_, hbegins, hletter, hmore.concat hchar⟩
  exact List.append_assoc kept more [char]

/-- What is left of a word without a letter is a sign, or nothing. -/
theorem dropLast (h : HoldsWord entry) : IsTyped entry.dropLast ∨ HoldsWord entry.dropLast := by
  obtain ⟨word, hword, kept, more, rfl, hbegins, hletter, hmore⟩ := h
  by_cases hnil : more = []
  · subst hnil
    have hshorter : kept.dropLast <+: word.toList := (List.dropLast_prefix kept).trans hbegins
    rw [List.append_nil]
    by_cases hleft : ∃ letter ∈ kept.dropLast, letter.isAlpha = true
    · right
      exact ⟨word, hword, kept.dropLast, [], (List.append_nil _).symm, hshorter, hleft, hmore⟩
    · left
      intro char hchar
      rcases isInputChar_or_isAlpha_of_mem_word hword (hshorter.subset hchar) with
        hinput | halpha
      · exact hinput
      · exact absurd ⟨char, hchar, halpha⟩ hleft
  · right
    refine ⟨word, hword, kept, more.dropLast, ?_, hbegins, hletter, hmore.dropLast⟩
    exact List.dropLast_append_of_ne_nil hnil

theorem exists_letter (h : HoldsWord entry) :
    ∃ negative letter after, entry = minusIf negative ++ letter :: after ∧
      (letter = 'I' ∨ letter = 'N') := by
  obtain ⟨word, hword, kept, more, rfl, hbegins, hletter, -⟩ := h
  obtain ⟨negative, letter, after, hchars, hcase⟩ := exists_letter_of_mem_wordTexts hword
  rw [hchars] at hbegins
  obtain ⟨rest, rfl⟩ := prefix_of_letter hbegins hletter
  refine ⟨negative, letter, rest ++ more, ?_, hcase⟩
  rw [List.append_assoc, List.cons_append]

end HoldsWord

theorem not_keyboardEntry_errorText : ¬ KeyboardEntry errorText := by
  rintro (htyped | hword)
  · have hletter := htyped 'E' (by decide)
    cases hletter
  · obtain ⟨negative, letter, after, hentry, hcase⟩ := hword.exists_letter
    have hchars : errorText.toList = 'E' :: "rror".toList := by decide
    rw [hchars] at hentry
    cases negative with
    | false =>
      obtain ⟨rfl, -⟩ := List.cons_eq_cons.mp hentry
      rcases hcase with hcase | hcase
      · cases hcase
      · cases hcase
    | true => cases (List.cons_eq_cons.mp hentry).1

/-! ### Words are not computed with -/

namespace Calculator

variable {c : Calculator}

theorem press_of_holdsWord (h : HoldsWord c.entry.toList) (key : ResultKey) :
    c.press key.key = c.showError := by
  obtain ⟨negative, letter, after, hentry, hletter⟩ := h.exists_letter
  exact press_of_isRefused c (isRefused_of_letter hentry hletter) key

end Calculator

/-! ### Results -/

theorem isTyped_text {x : Binary64} (hx : x.isFinite = true) : IsTyped x.text.toList :=
  isInputChar_of_mem_text hx

theorem text_mem_wordTexts {x : Binary64} (hx : x.isFinite = false) : x.text ∈ wordTexts := by
  cases x with
  | finite negative m => cases hx
  | infinite negative =>
    cases negative with
    | false => exact List.mem_cons_self
    | true => exact List.mem_cons_of_mem _ List.mem_cons_self
  | nan => exact List.mem_cons_of_mem _ (List.mem_cons_of_mem _ List.mem_cons_self)

theorem holdsWord_text {x : Binary64} (hx : x.isFinite = false) : HoldsWord x.text.toList := by
  obtain ⟨negative, letter, after, hchars, hletter⟩ :=
    exists_letter_of_mem_wordTexts (text_mem_wordTexts hx)
  have hmem : letter ∈ x.text.toList := by
    rw [hchars]
    exact List.mem_append_right _ List.mem_cons_self
  have halpha : letter.isAlpha = true := by
    rcases hletter with rfl | rfl
    · rfl
    · rfl
  exact ⟨x.text, text_mem_wordTexts hx, x.text.toList, [], (List.append_nil _).symm,
    List.prefix_refl _, ⟨letter, hmem, halpha⟩, isTyped_nil⟩

theorem keyboardEntry_text (x : Binary64) : KeyboardEntry x.text := by
  cases hx : x.isFinite with
  | true => exact .inl (isTyped_text hx)
  | false => exact .inr (holdsWord_text hx)

theorem isFinite_of_evaluateWith {s : Settings} {text : String} {x : Binary64}
    (hfinite : s.requireFinite = true) (h : evaluateWith s text = .ok x) : x.isFinite = true := by
  unfold evaluateWith at h
  split at h
  · cases h
  · next expr _ =>
    rw [hfinite, Bool.true_and] at h
    cases hvalue : expr.value.isFinite with
    | true =>
      rw [hvalue] at h
      cases h
      exact hvalue
    | false =>
      rw [hvalue] at h
      cases h

theorem IsTyped.not_holdsWord {entry : List Char} (h : IsTyped entry) : ¬ HoldsWord entry := by
  intro hword
  obtain ⟨negative, letter, after, rfl, hletter⟩ := hword.exists_letter
  have hinput := h letter (List.mem_append_right _ List.mem_cons_self)
  rcases hletter with rfl | rfl
  · cases hinput
  · cases hinput

/-! ### One key -/

namespace KeyboardEntry

variable {c : Calculator}

theorem empty : KeyboardEntry "" := .inl isTyped_nil

theorem push {entry : String} (h : KeyboardEntry entry) {char : Char}
    (hchar : Key.isInputChar char = true) : KeyboardEntry (entry.push char) := by
  unfold KeyboardEntry
  rw [String.toList_push]
  rcases h with htyped | hword
  · exact .inl (htyped.concat hchar)
  · exact .inr (hword.concat hchar)

theorem backspace (h : KeyboardEntry c.entry) : KeyboardEntry c.backspace.entry := by
  unfold Calculator.backspace
  split
  · exact h
  · show KeyboardEntry (String.ofList c.entry.toList.dropLast)
    unfold KeyboardEntry
    rw [String.toList_ofList]
    rcases h with htyped | hword
    · exact .inl htyped.dropLast
    · exact hword.dropLast

theorem showOutcome {ε : Type} (c : Calculator) (outcome : Except ε Binary64) :
    KeyboardEntry (c.showOutcome outcome).entry := by
  cases outcome with
  | ok x => exact keyboardEntry_text x
  | error e => exact empty

theorem press (h : KeyboardEntry c.entry) {char : Char} {key : Key}
    (hkey : Key.ofChar? char = some key) : KeyboardEntry (c.press key).entry := by
  cases key with
  | input typed => exact h.push (isInputChar_of_ofChar? hkey)
  | equals => exact showOutcome c _
  | clear => exact empty
  | backspace => exact h.backspace
  | squareRoot => exact showOutcome c _
  | square => exact showOutcome c _

theorem type (h : KeyboardEntry c.entry) (text : String) : KeyboardEntry (c.type text).entry :=
  Calculator.type_keeps (P := fun c => KeyboardEntry c.entry)
    (fun _ _ _ hkey h => h.press hkey) h text

end KeyboardEntry

/-! ### All keys -/

/-- A session types some text, if it comes to its end or not. -/
theorem exists_type_session (c : Calculator) (input : List UInt8) :
    ∃ text, (c.session input).calculator = c.type text := by
  unfold Calculator.session
  generalize hstart : Session.start c = s
  have hs : ∃ text, s.calculator = c.type text := ⟨"", by rw [← hstart]; rfl⟩
  clear hstart
  generalize lines input = lines
  induction lines generalizing s with
  | nil => exact hs
  | cons line lines ih =>
    rw [List.foldl_cons]
    apply ih
    unfold Session.readLine
    split
    · exact hs
    · split
      · exact hs
      · next text _ =>
        obtain ⟨before, hbefore⟩ := hs
        refine ⟨before ++ text, ?_⟩
        rw [Calculator.type_append, ← hbefore]

theorem showsEntryOrError_type (r : Settings) (text : String) :
    ((Calculator.new r).type text).ShowsEntryOrError := by
  have hnew : (Calculator.new r).ShowsEntryOrError := .inl rfl
  have hactions := Calculator.actAll_actions (Calculator.new r) (.type text)
  have hshows := hnew.actAll (Operation.type text).actions
  rwa [hactions] at hshows

/-- What holds of a calculator whose keys are pressed on a keyboard only. -/
structure KeyboardState (r : Settings) (c : Calculator) : Prop where
  settings : c.settings = r
  entry : IsTyped c.entry.toList ∨ HoldsWord c.entry.toList
  refuses : HoldsWord c.entry.toList → ∀ key : ResultKey, (c.press key.key).inError = true
  finite : r.requireFinite = true → ¬ HoldsWord (c.press .equals).entry.toList
  shows : c.display = errorText ↔ c.inError = true

theorem keyboardState_of_type (r : Settings) (text : String) :
    KeyboardState r ((Calculator.new r).type text) := by
  have hsettings : ((Calculator.new r).type text).settings = r := Calculator.settings_type _ _
  have hentry : KeyboardEntry ((Calculator.new r).type text).entry := KeyboardEntry.empty.type text
  have hshows := showsEntryOrError_type r text
  generalize (Calculator.new r).type text = c at hsettings hentry hshows
  refine ⟨hsettings, hentry, ?_, ?_, ?_⟩
  · intro hword key
    rw [Calculator.press_of_holdsWord hword]
    exact c.inError_showError
  · intro hfinite
    show ¬ HoldsWord (c.showOutcome (evaluateWith c.settings c.entry)).entry.toList
    apply IsTyped.not_holdsWord
    rw [hsettings]
    cases hvalue : evaluateWith r c.entry with
    | ok x => exact isTyped_text (isFinite_of_evaluateWith hfinite hvalue)
    | error e => exact isTyped_nil
  · constructor
    · intro hdisplay
      rcases hshows with hsame | ⟨hempty, -⟩
      · rw [hdisplay] at hsame
        rw [← hsame] at hentry
        exact absurd hentry not_keyboardEntry_errorText
      · exact Calculator.inError_iff.mpr ⟨hempty, hdisplay⟩
    · intro herror
      exact (Calculator.inError_iff.mp herror).2

/-- After any session, and after any characters that are typed then, the entry is of one of the two
    forms, a word in it is not computed with, and the display reads `Error` exactly if the
    calculator is in error. -/
theorem keyboardState_of_typed (r : Settings) (input : List UInt8) (text : String) :
    KeyboardState r ((Calculator.new r).type text) ∧
    KeyboardState r (((Calculator.new r).session input).calculator.type text) := by
  constructor
  · exact keyboardState_of_type r text
  · obtain ⟨before, hbefore⟩ := exists_type_session (Calculator.new r) input
    rw [hbefore, ← Calculator.type_append]
    exact keyboardState_of_type r (before ++ text)

end DeskCalculator
