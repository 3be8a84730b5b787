import DeskCalculator.Proofs.TextConsumer

/-!
# The same stretch of two texts

Two stretches of text are the same to a reader if the same characters stand in them and the
same character behind them (`Cursor.SameStretch`).  Every step of a cursor that ends at the end
of one stretch ends at the end of the other: passing spaces, taking a symbol, reading a
decimal.  A place within one stretch has a counterpart within the other, so a sequence
of steps can be followed from one text to the other.
-/

namespace DeskCalculator.Cursor

/-! ### The same stretch in two texts -/

/-- The same characters lead from each start to its end, and the same character, or the end of
    the text, is in view there. -/
def SameStretch (c next c' next' : Cursor) : Prop :=
  ∃ passed, c.Passes passed next ∧ c'.Passes passed next' ∧ next'.current = next.current

variable {α : Type} {table : Char → Option α} {c middle next c' next' : Cursor}
  {passed more : List Char}

theorem SameStretch.current_eq (h : SameStretch c next c' next') : c'.current = c.current := by
  obtain ⟨passed, hpasses, hpasses', hcurrent⟩ := h
  cases passed with
  | nil =>
    simp only [current, hpasses.rest_eq, hpasses'.rest_eq, List.nil_append]
    exact hcurrent
  | cons char passed => simp [current, hpasses.rest_eq, hpasses'.rest_eq]

/-- A place on the way has a counterpart. -/
theorem SameStretch.split (h : SameStretch c next c' next') (hfirst : c.Passes passed middle)
    (hsecond : middle.Passes more next) :
    ∃ middle', SameStretch c middle c' middle' ∧ SameStretch middle next middle' next' := by
  obtain ⟨whole, hpasses, hpasses', hcurrent⟩ := h
  have hwhole : whole = passed ++ more := hpasses.unique (hfirst.trans hsecond)
  have hsecond' : (Cursor.mk (c'.position + passed.length) (more ++ next'.rest)).Passes more
      next' := by
    constructor
    · rfl
    · rw [hpasses'.position_eq, hwhole, List.length_append, Nat.add_assoc]
  have hbehind : SameStretch middle next ⟨c'.position + passed.length, more ++ next'.rest⟩ next' :=
    ⟨more, hsecond, hsecond', hcurrent⟩
  refine ⟨_, ⟨passed, hfirst, ⟨?_, rfl⟩, hbehind.current_eq⟩, hbehind⟩
  rw [hpasses'.rest_eq, hwhole, List.append_assoc]

theorem SameStretch.skipSpaces_eq (h : SameStretch c c.skipSpaces c' next') :
    c'.skipSpaces = next' := by
  obtain ⟨passed, hpasses, hpasses', hcurrent⟩ := h
  obtain ⟨blanks, hskip⟩ := c.passes_skipSpaces
  have hblanks : passed = spaces blanks := hpasses.unique hskip
  have hstop : next'.rest.head? ≠ some ' ' := by
    intro hspace
    exact c.current_skipSpaces_ne (hcurrent.symm.trans hspace)
  obtain ⟨position, rest⟩ := c'
  obtain ⟨position', rest'⟩ := next'
  obtain ⟨hrest, hposition⟩ := hpasses'
  simp only at hrest hposition hstop
  rw [hrest, hblanks, skipSpaces_spaces hstop, hposition, hblanks, spaces, List.length_replicate]

theorem SameStretch.accept?_eq_none (h : SameStretch c c.skipSpaces c' next')
    (haccept : c.accept? table = none) : c'.accept? table = none := by
  refine DeskCalculator.accept?_eq_none h.skipSpaces_eq fun char hchar => ?_
  obtain ⟨_, -, -, hcurrent⟩ := h
  exact (refuses_skipSpaces haccept char (hcurrent.symm.trans hchar)).2

theorem passes_of_accept? {reading : Reading α c.rest.length}
    (h : c.accept? table = some reading) :
    ∃ char, c.skipSpaces.Passes [char] reading.next ∧ table char = some reading.value := by
  obtain ⟨char, hrest, htable, hposition⟩ := accept?_eq_some h
  exact ⟨char, ⟨hrest, hposition⟩, htable⟩

theorem exists_passes_of_accept? {reading : Reading α c.rest.length}
    (h : c.accept? table = some reading) : ∃ passed, c.Passes passed reading.next := by
  obtain ⟨blanks, hskip⟩ := c.passes_skipSpaces
  obtain ⟨char, hchar, -⟩ := passes_of_accept? h
  exact ⟨_, hskip.trans hchar⟩

theorem SameStretch.accept?_eq_some {reading : Reading α c.rest.length}
    (h : SameStretch c reading.next c' next') (haccept : c.accept? table = some reading) :
    ∃ reading', c'.accept? table = some reading' ∧ reading'.value = reading.value ∧
      reading'.next = next' := by
  obtain ⟨blanks, hskip⟩ := c.passes_skipSpaces
  obtain ⟨char, hchar, htable⟩ := passes_of_accept? haccept
  obtain ⟨middle', hspaces, hsymbol⟩ := h.split hskip hchar
  obtain ⟨passed, hpasses, hpasses', -⟩ := hsymbol
  have hpassed : passed = [char] := hpasses.unique hchar
  have hmiddle : c'.skipSpaces = ⟨middle'.position, char :: next'.rest⟩ := by
    rw [hspaces.skipSpaces_eq]
    obtain ⟨position, rest⟩ := middle'
    have hrest : rest = passed ++ next'.rest := hpasses'.rest_eq
    rw [hrest, hpassed, List.singleton_append]
  obtain ⟨reading', haccept', hvalue, hnext⟩ := accept?_of_skipSpaces hmiddle htable
  refine ⟨reading', haccept', hvalue, ?_⟩
  have hposition : next'.position = middle'.position + 1 := by
    rw [hpasses'.position_eq, hpassed, List.length_singleton]
  rw [hnext, ← hposition]

/-- A stretch that agrees with the one before it in every character up to the one that follows
    it. -/
theorem sameStretch_of_getElem? (h : c.Passes passed next) (position' : Nat) {rest' : List Char}
    (hagree : ∀ i ≤ passed.length, rest'[i]? = c.rest[i]?) :
    SameStretch c next ⟨position', rest'⟩ ⟨position' + passed.length, rest'.drop passed.length⟩ := by
  have htake : rest'.take passed.length = passed := by
    apply List.ext_getElem?
    intro i
    by_cases hi : i < passed.length
    · rw [List.getElem?_take_of_lt hi, hagree i (Nat.le_of_lt hi), h.rest_eq,
        List.getElem?_append_left hi]
    · rw [List.getElem?_take_eq_none (Nat.le_of_not_lt hi),
        List.getElem?_eq_none (Nat.le_of_not_lt hi)]
  have hsplit : rest' = passed ++ rest'.drop passed.length := by
    have happend := List.take_append_drop passed.length rest'
    rw [htake] at happend
    exact happend.symm
  refine ⟨passed, h, ⟨hsplit, rfl⟩, ?_⟩
  show (rest'.drop passed.length).head? = next.rest.head?
  rw [List.head?_drop, hagree _ (Nat.le_refl _), h.rest_eq,
    List.getElem?_append_right (Nat.le_refl _), Nat.sub_self, List.head?_eq_getElem?]

theorem position_errorHere (c : Cursor) : c.errorHere.position = c.position := by
  cases h : c.rest with
  | nil => rw [errorHere_of_nil h, SyntaxError.position]
  | cons char rest => rw [errorHere_of_cons h, SyntaxError.position]

/-! ### Decimals -/

theorem decimal_of_no_digit (h : c.current.any Char.isDigit = false) :
    c.decimal = .error c.errorHere := by
  simp [Cursor.decimal, h]

theorem exists_atNumber_of_decimal {reading : Reading Decimal c.rest.length}
    (h : c.decimal = .ok reading) :
    ∃ run, c.AtNumber run ∧ Decimal.ofChars? run = some reading.value ∧
      reading.next = (c.takeWhile Decimal.isNumeralChar).2 := by
  cases hdigit : c.current.any Char.isDigit with
  | false =>
    rw [decimal_of_no_digit hdigit] at h
    cases h
  | true =>
    have hat : c.AtNumber (c.takeWhile Decimal.isNumeralChar).1 := ⟨hdigit, rfl⟩
    cases hrun : Decimal.ofChars? (c.takeWhile Decimal.isNumeralChar).1 with
    | none =>
      rw [hat.decimal_of_none hrun] at h
      cases h
    | some decimal =>
      obtain ⟨other, hother, hnext, hvalue⟩ := hat.decimal_of_some hrun
      rw [h, Except.ok.injEq] at hother
      subst hother
      exact ⟨_, hat, hvalue ▸ hrun, hnext⟩

theorem position_of_decimal_eq_error {e : SyntaxError} (h : c.decimal = .error e) :
    e.position = c.position := by
  cases hdigit : c.current.any Char.isDigit with
  | false =>
    rw [decimal_of_no_digit hdigit] at h
    cases h
    exact position_errorHere c
  | true =>
    have hat : c.AtNumber (c.takeWhile Decimal.isNumeralChar).1 := ⟨hdigit, rfl⟩
    cases hrun : Decimal.ofChars? (c.takeWhile Decimal.isNumeralChar).1 with
    | none =>
      rw [hat.decimal_of_none hrun] at h
      cases h
      rfl
    | some decimal =>
      obtain ⟨reading, hread, -⟩ := hat.decimal_of_some hrun
      rw [hread] at h
      cases h

theorem passes_of_decimal {reading : Reading Decimal c.rest.length} (h : c.decimal = .ok reading) :
    ∃ run, c.Passes run reading.next := by
  obtain ⟨run, -, -, hnext⟩ := exists_atNumber_of_decimal h
  exact ⟨_, hnext ▸ c.passes_takeWhile Decimal.isNumeralChar⟩

theorem SameStretch.takeWhile_eq {test : Char → Bool}
    (h : SameStretch c (c.takeWhile test).2 c' next') :
    c'.takeWhile test = ((c.takeWhile test).1, next') := by
  obtain ⟨passed, hpasses, ⟨hrest, hposition⟩, hcurrent⟩ := h
  have hpassed : passed = (c.takeWhile test).1 := hpasses.unique (c.passes_takeWhile test)
  have hstop : next'.current.any test = false := hcurrent ▸ c.head?_takeWhile_any test
  obtain ⟨position, rest⟩ := c'
  obtain ⟨position', rest'⟩ := next'
  simp only at hrest hposition
  rw [hrest, hposition, hpassed, takeWhile_run (c.all_takeWhile test) hstop]

theorem SameStretch.decimal_eq_ok {reading : Reading Decimal c.rest.length}
    (h : SameStretch c reading.next c' next') (hread : c.decimal = .ok reading) :
    ∃ reading', c'.decimal = .ok reading' ∧ reading'.value = reading.value ∧
      reading'.next = next' := by
  obtain ⟨run, hat, hrun, hnext⟩ := exists_atNumber_of_decimal hread
  rw [hnext] at h
  have htake := h.takeWhile_eq
  rw [hat.run_eq] at htake
  have hat' : c'.AtNumber run := ⟨h.current_eq ▸ hat.digit, congrArg Prod.fst htake⟩
  obtain ⟨reading', hread', hnext', hvalue'⟩ := hat'.decimal_of_some hrun
  exact ⟨reading', hread', hvalue', hnext'.trans (congrArg Prod.snd htake)⟩

end DeskCalculator.Cursor
