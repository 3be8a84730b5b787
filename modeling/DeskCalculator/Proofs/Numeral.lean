import DeskCalculator.Decimal.Reader

/-!
# Runs of digits and points

Which runs are numerals, and which decimals they stand for.  A run is cut at its first
point, and it is read exactly if no other follows (`Decimal.ofChars?_eq_none_iff`).  Where
a number starts in a text, the reader takes the whole run and asks for its decimal
(`Cursor.AtNumber`).
-/

namespace DeskCalculator

namespace Decimal

theorem isNumeralChar_of_isDigit {char : Char} (h : char.isDigit = true) :
    isNumeralChar char = true := by
  simp [isNumeralChar, h]

theorem isDigit_of_isNumeralChar {char : Char} (h : isNumeralChar char = true)
    (hpoint : char ≠ '.') : char.isDigit = true := by
  simpa [isNumeralChar, hpoint] using h

theorem takeWhile_isNumeralChar_eq_nil {text : List Char}
    (h : text.head?.any isNumeralChar = false) :
    text.takeWhile isNumeralChar = [] := by
  cases text with
  | nil => rfl
  | cons char text =>
    have hchar : isNumeralChar char = false := by simpa using h
    simp [hchar]

/-- A run has no point, or it is cut at the first one. -/
theorem whole_or_point (run : List Char) :
    '.' ∉ run ∨ ∃ whole fraction, run = whole ++ '.' :: fraction ∧ '.' ∉ whole := by
  by_cases h : '.' ∈ run
  · obtain ⟨whole, fraction, hrun, hwhole⟩ := List.eq_append_cons_of_mem h
    exact .inr ⟨whole, fraction, hrun, hwhole⟩
  · exact .inl h

theorem bne_point_of_not_mem {digits : List Char} (h : '.' ∉ digits) :
    ∀ char ∈ digits, (char != '.') = true := by
  intro char hchar
  apply bne_iff_ne.mpr
  rintro rfl
  exact h hchar

theorem ofChars?_point_eq_none {whole fraction : List Char} (hwhole : '.' ∉ whole)
    (hfraction : '.' ∈ fraction) : ofChars? (whole ++ '.' :: fraction) = none := by
  simp [ofChars?, List.dropWhile_append_of_pos (bne_point_of_not_mem hwhole), hfraction]

/-- Only a second point spoils a run. -/
theorem ofChars?_eq_none_iff {run : List Char} : ofChars? run = none ↔ 2 ≤ run.count '.' := by
  rcases whole_or_point run with hrun | ⟨whole, fraction, rfl, hwhole⟩
  · simp [ofChars?_whole hrun, List.count_eq_zero.mpr hrun]
  · have hcount : (whole ++ '.' :: fraction).count '.' = fraction.count '.' + 1 := by
      simp [List.count_eq_zero.mpr hwhole]
    by_cases hfraction : '.' ∈ fraction
    · have hpos := List.count_pos_iff.mpr hfraction
      simp only [ofChars?_point_eq_none hwhole hfraction, hcount, true_iff]
      omega
    · simp [ofChars?_point hwhole hfraction, hcount, List.count_eq_zero.mpr hfraction]

theorem ofChars?_eq_some {run : List Char} {decimal : Decimal} (h : ofChars? run = some decimal) :
    ('.' ∉ run ∧ decimal = ⟨Nat.ofDigitChars 10 run 0, 0⟩) ∨
      ∃ whole fraction, run = whole ++ '.' :: fraction ∧ '.' ∉ whole ∧ '.' ∉ fraction ∧
        decimal = ⟨Nat.ofDigitChars 10 (whole ++ fraction) 0, fraction.length⟩ := by
  rcases whole_or_point run with hrun | ⟨whole, fraction, rfl, hwhole⟩
  · rw [ofChars?_whole hrun] at h
    exact .inl ⟨hrun, (Option.some.inj h).symm⟩
  · by_cases hfraction : '.' ∈ fraction
    · rw [ofChars?_point_eq_none hwhole hfraction] at h
      cases h
    · rw [ofChars?_point hwhole hfraction] at h
      exact .inr ⟨whole, fraction, rfl, hwhole, hfraction, (Option.some.inj h).symm⟩

/-- A run that a text may hold as a number, with the decimal it stands for. -/
structure Numeral (run : List Char) (decimal : Decimal) : Prop where
  head : run.head?.any Char.isDigit = true
  chars : ∀ char ∈ run, isNumeralChar char = true
  reads : ofChars? run = some decimal

/-- A list of digits that is not empty starts with a digit, whatever follows it. -/
theorem head?_any_isDigit {digits : List Char} (hdigits : digits ≠ [])
    (hall : ∀ char ∈ digits, char.isDigit = true) (rest : List Char) :
    (digits ++ rest).head?.any Char.isDigit = true := by
  cases digits with
  | nil => exact absurd rfl hdigits
  | cons char digits => simpa using hall char (by simp)

theorem numeral_whole {digits : List Char} (hdigits : digits ≠ [])
    (hall : ∀ char ∈ digits, char.isDigit = true) :
    Numeral digits ⟨Nat.ofDigitChars 10 digits 0, 0⟩ where
  head := by simpa using head?_any_isDigit hdigits hall []
  chars := fun char hchar => isNumeralChar_of_isDigit (hall char hchar)
  reads := ofChars?_whole fun hpoint => absurd (hall '.' hpoint) (by decide)

theorem numeral_point {digits fraction : List Char} (hdigits : digits ≠ [])
    (hall : ∀ char ∈ digits, char.isDigit = true)
    (hfraction : ∀ char ∈ fraction, char.isDigit = true) :
    Numeral (digits ++ '.' :: fraction)
      ⟨Nat.ofDigitChars 10 (digits ++ fraction) 0, fraction.length⟩ where
  head := head?_any_isDigit hdigits hall _
  chars := by
    intro char hchar
    rcases List.mem_append.mp hchar with hwhole | hbehind
    · exact isNumeralChar_of_isDigit (hall char hwhole)
    · rcases List.mem_cons.mp hbehind with rfl | hbehind
      · rfl
      · exact isNumeralChar_of_isDigit (hfraction char hbehind)
  reads := ofChars?_point (fun hpoint => absurd (hall '.' hpoint) (by decide))
    fun hpoint => absurd (hfraction '.' hpoint) (by decide)

/-- The parts of a numeral: digits, or digits around a point. -/
theorem Numeral.cases {run : List Char} {decimal : Decimal} (h : Numeral run decimal) :
    (run ≠ [] ∧ (∀ char ∈ run, char.isDigit = true) ∧
      decimal = ⟨Nat.ofDigitChars 10 run 0, 0⟩) ∨
    ∃ whole fraction, run = whole ++ '.' :: fraction ∧ whole ≠ [] ∧
      (∀ char ∈ whole, char.isDigit = true) ∧ (∀ char ∈ fraction, char.isDigit = true) ∧
      decimal = ⟨Nat.ofDigitChars 10 (whole ++ fraction) 0, fraction.length⟩ := by
  obtain ⟨hhead, hchars, hreads⟩ := h
  rcases ofChars?_eq_some hreads with
    ⟨hpoint, rfl⟩ | ⟨whole, fraction, rfl, hwhole, hfraction, rfl⟩
  · refine .inl ⟨?_, fun char hchar => ?_, rfl⟩
    · rintro rfl
      simp at hhead
    · exact isDigit_of_isNumeralChar (hchars char hchar) fun h => hpoint (h ▸ hchar)
  · refine .inr ⟨whole, fraction, rfl, ?_, fun char hchar => ?_, fun char hchar => ?_, rfl⟩
    · rintro rfl
      simp at hhead
    · exact isDigit_of_isNumeralChar (hchars char (by simp [hchar])) fun h => hwhole (h ▸ hchar)
    · exact isDigit_of_isNumeralChar (hchars char (by simp [hchar])) fun h =>
        hfraction (h ▸ hchar)

/-- What is written is a numeral of what was meant. -/
theorem numeral_toChars (d : Decimal) : Numeral d.toChars d := by
  have hdigits : ∀ char ∈ d.paddedDigits, char.isDigit = true := fun char =>
    isDigit_of_mem_paddedDigits
  have hlength := places_lt_length_paddedDigits d
  have hreads := ofChars?_toChars d
  by_cases hplaces : d.places = 0
  · have hchars : d.toChars = d.paddedDigits := if_pos hplaces
    have hnumeral := numeral_whole (List.ne_nil_of_length_pos (by omega)) hdigits
    rw [hchars] at hreads ⊢
    rw [hnumeral.reads] at hreads
    rwa [Option.some.inj hreads] at hnumeral
  · have hchars : d.toChars = d.paddedDigits.take (d.paddedDigits.length - d.places) ++
        '.' :: d.paddedDigits.drop (d.paddedDigits.length - d.places) := if_neg hplaces
    have hwhole : d.paddedDigits.take (d.paddedDigits.length - d.places) ≠ [] := by
      apply List.ne_nil_of_length_pos
      rw [List.length_take]
      omega
    have hfraction : ∀ char ∈ d.paddedDigits.drop (d.paddedDigits.length - d.places),
        char.isDigit = true := fun char hchar => hdigits char (List.mem_of_mem_drop hchar)
    have hnumeral := numeral_point hwhole
      (fun char hchar => hdigits char (List.mem_of_mem_take hchar)) hfraction
    rw [hchars] at hreads ⊢
    rw [hnumeral.reads] at hreads
    rwa [Option.some.inj hreads] at hnumeral

end Decimal

/-! ### At a cursor -/

namespace Cursor

/-- A number starts here, and the run is the whole of it. -/
structure AtNumber (c : Cursor) (run : List Char) : Prop where
  digit : c.current.any Char.isDigit = true
  run_eq : (c.takeWhile Decimal.isNumeralChar).1 = run

variable {c : Cursor} {run : List Char}

theorem AtNumber.decimal_of_none (h : c.AtNumber run) (hrun : Decimal.ofChars? run = none) :
    c.decimal = .error (.malformedNumber (String.ofList run) c.position) := by
  unfold decimal
  rw [dif_pos h.digit]
  simp only [h.run_eq, hrun]

theorem AtNumber.decimal_of_some (h : c.AtNumber run) {d : Decimal}
    (hrun : Decimal.ofChars? run = some d) :
    ∃ reading, c.decimal = .ok reading ∧
      reading.next = (c.takeWhile Decimal.isNumeralChar).2 ∧ reading.value = d := by
  unfold decimal
  rw [dif_pos h.digit]
  simp only [h.run_eq, hrun]
  exact ⟨_, rfl, rfl, rfl⟩

end Cursor

end DeskCalculator
