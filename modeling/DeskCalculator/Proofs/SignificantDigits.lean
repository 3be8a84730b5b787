import DeskCalculator.Proofs.DisplayRoundTrip
import DeskCalculator.Proofs.ExactArithmetic
import DeskCalculator.Proofs.FewestDigits
import DeskCalculator.Proofs.SingleNumberForm
import Mathlib.Data.List.DropRight

/-!
# The shortest text of a number

Of all numerals that are read as a number, the text that shows it has the fewest significant
digits, and of those with as few it is nearest to the exact value
(`text_shortest_nearest`).

Significant digits are a matter of characters: the digits of a text without the zeros at both
ends.  How many they are is also a matter of the coefficient that the digits make up
(`length_significantDigits_le_iff`), and in this form it is what the search for the shortest decimal
minimizes.
-/

namespace DeskCalculator

/-! ### Significant digits -/

/-- The digits of a text from the first to the last that is not zero. -/
def significantDigits (text : List Char) : List Char :=
  ((text.filter Char.isDigit).dropWhile (· == '0')).rdropWhile (· == '0')

theorem digit_le_nine {char : Char} (h : char.isDigit = true) : char.toNat - '0'.toNat ≤ 9 := by
  have hnine : '9'.toNat = '0'.toNat + 9 := rfl
  have hupper := (Char.isDigit_iff_toNat.mp h).2
  omega

theorem digit_ne_zero {char : Char} (h : char.isDigit = true) (hne : char ≠ '0') :
    char.toNat - '0'.toNat ≠ 0 := by
  intro hzero
  have hlower := (Char.isDigit_iff_toNat.mp h).1
  exact hne (Char.toNat_inj.mp (by omega))

theorem ofDigitChars_concat (front : List Char) (char : Char) :
    Nat.ofDigitChars 10 (front ++ [char]) 0
      = 10 * Nat.ofDigitChars 10 front 0 + (char.toNat - '0'.toNat) := by
  rw [Nat.ofDigitChars_append, Nat.ofDigitChars_cons, Nat.ofDigitChars_nil]

theorem ofDigitChars_lt_pow {digits : List Char} (hall : ∀ char ∈ digits, char.isDigit = true) :
    Nat.ofDigitChars 10 digits 0 < 10 ^ digits.length := by
  induction digits using List.reverseRecOn with
  | nil => simp
  | append_singleton front char ih =>
    have hfront := ih fun other hother => hall other (List.mem_append_left _ hother)
    have hchar := digit_le_nine (hall char (by simp))
    rw [ofDigitChars_concat, List.length_append, List.length_singleton, pow_succ]
    omega

theorem pow_le_ofDigitChars {char : Char} (hdigit : char.isDigit = true) (hne : char ≠ '0')
    (rest : List Char) : 10 ^ rest.length ≤ Nat.ofDigitChars 10 (char :: rest) 0 := by
  have hpos := digit_ne_zero hdigit hne
  rw [Nat.ofDigitChars_cons, Nat.ofDigitChars_eq_ofDigitChars_zero, Nat.mul_zero, Nat.zero_add]
  exact (Nat.le_mul_of_pos_right _ (Nat.pos_of_ne_zero hpos)).trans (Nat.le_add_right _ _)

/-- Zeros in front are nothing. -/
theorem ofDigitChars_dropWhile_zero (digits : List Char) :
    Nat.ofDigitChars 10 (digits.dropWhile (· == '0')) 0 = Nat.ofDigitChars 10 digits 0 := by
  induction digits with
  | nil => rfl
  | cons char rest ih =>
    by_cases hzero : char = '0'
    · subst hzero
      rw [List.dropWhile_cons_of_pos rfl, ih, Nat.ofDigitChars_cons]
      rfl
    · rw [List.dropWhile_cons_of_neg (by simpa using hzero)]

/-- Zeros at the end are powers of ten. -/
theorem exists_ofDigitChars_rdropWhile_zero (digits : List Char) :
    ∃ zeros, Nat.ofDigitChars 10 digits 0
      = Nat.ofDigitChars 10 (digits.rdropWhile (· == '0')) 0 * 10 ^ zeros := by
  induction digits using List.reverseRecOn with
  | nil => exact ⟨0, rfl⟩
  | append_singleton front char ih =>
    by_cases hzero : char = '0'
    · subst hzero
      obtain ⟨zeros, hfront⟩ := ih
      refine ⟨zeros + 1, ?_⟩
      rw [List.rdropWhile_concat_pos _ _ _ rfl, ofDigitChars_concat, hfront, pow_succ]
      simp only [Nat.sub_self, Nat.add_zero]
      ring
    · refine ⟨0, ?_⟩
      rw [List.rdropWhile_concat_neg _ _ _ (by simpa using hzero), pow_zero, mul_one]

section

variable {text : List Char}

theorem isDigit_of_mem_significantDigits {char : Char} (h : char ∈ significantDigits text) :
    char.isDigit = true := by
  have hdrop := (List.rdropWhile_prefix _ _).subset h
  have hfilter := (List.dropWhile_sublist _).subset hdrop
  exact (List.mem_filter.mp hfilter).2

theorem first_significantDigits_ne {char : Char} {rest : List Char}
    (h : significantDigits text = char :: rest) : char ≠ '0' := by
  rintro rfl
  obtain ⟨zeros, hzeros⟩ := List.rdropWhile_prefix (· == '0')
    ((text.filter Char.isDigit).dropWhile (· == '0'))
  have hfirst := List.head?_dropWhile_not (· == '0') (text.filter Char.isDigit)
  rw [← hzeros, ← significantDigits, h, List.cons_append, List.head?_cons] at hfirst
  cases hfirst

theorem last_significantDigits_ne {front : List Char} {char : Char}
    (h : significantDigits text = front ++ [char]) : char ≠ '0' := by
  rintro rfl
  have hself : (significantDigits text).rdropWhile (· == '0') = significantDigits text :=
    List.rdropWhile_idempotent ..
  have hshorter := (List.rdropWhile_prefix (· == '0') front).length_le
  rw [h, List.rdropWhile_concat_pos _ _ _ rfl] at hself
  rw [hself, List.length_append, List.length_singleton] at hshorter
  omega

theorem significantDigits_mod_ten (hne : significantDigits text ≠ []) :
    Nat.ofDigitChars 10 (significantDigits text) 0 % 10 ≠ 0 := by
  rcases List.eq_nil_or_concat' (significantDigits text) with hnil | ⟨front, char, hconcat⟩
  · exact absurd hnil hne
  · have hmem : char ∈ significantDigits text := by
      rw [hconcat]
      simp
    have hdigit := isDigit_of_mem_significantDigits hmem
    have hchar := digit_ne_zero hdigit (last_significantDigits_ne hconcat)
    have hnine := digit_le_nine hdigit
    rw [hconcat, ofDigitChars_concat]
    omega

theorem exists_coefficient_eq (text : List Char) :
    ∃ zeros, Nat.ofDigitChars 10 (text.filter Char.isDigit) 0
      = Nat.ofDigitChars 10 (significantDigits text) 0 * 10 ^ zeros := by
  obtain ⟨zeros, hzeros⟩ :=
    exists_ofDigitChars_rdropWhile_zero ((text.filter Char.isDigit).dropWhile (· == '0'))
  rw [ofDigitChars_dropWhile_zero] at hzeros
  exact ⟨zeros, hzeros⟩

/-- No fewer digits make up the coefficient than the significant ones. -/
theorem length_significantDigits_le_iff {count : ℕ} :
    (significantDigits text).length ≤ count ↔
      FitsDigits count (Nat.ofDigitChars 10 (text.filter Char.isDigit) 0) := by
  obtain ⟨more, hmore⟩ := exists_coefficient_eq text
  rw [hmore]
  constructor
  · intro hle
    have hless : Nat.ofDigitChars 10 (significantDigits text) 0
        < 10 ^ (significantDigits text).length :=
      ofDigitChars_lt_pow fun _ => isDigit_of_mem_significantDigits
    have hfits : FitsDigits (significantDigits text).length
        (Nat.ofDigitChars 10 (significantDigits text) 0) :=
      ⟨_, 0, by rw [pow_zero, mul_one], hless⟩
    exact (hfits.mono hle).mul_pow more
  · intro hfits
    cases hsignificant : significantDigits text with
    | nil => exact Nat.zero_le count
    | cons char rest =>
      have hmem : char ∈ significantDigits text := hsignificant ▸ List.mem_cons_self
      have hfirst := first_significantDigits_ne hsignificant
      have hpow := pow_le_ofDigitChars (isDigit_of_mem_significantDigits hmem) hfirst rest
      have hten := significantDigits_mod_ten (List.ne_nil_of_mem hmem)
      have hless := hfits.lt_pow_of_mod_ten hten
      rw [hsignificant] at hless
      exact (Nat.pow_lt_pow_iff_right (by decide)).mp (hpow.trans_lt hless)

end

/-- Zeros within the digits count. -/
example : significantDigits "-0.01020".toList = ['1', '0', '2'] := by decide

/-! ### Numerals -/

/-- What a numeral denotes, by its sign and the place of each digit. -/
def numeralValue (text : List Char) : ℚ :=
  withSign (decide ('-' ∈ text)) (denoted (text.filter Decimal.isNumeralChar))

/-- A text that is one number, and that is read as the given one. -/
def IsNumeralFor (text : String) (x : Binary64) : Prop :=
  IsSingleNumber text.toList ∧ evaluate text = .ok x

/-- A text that is one number, with its sign and its decimal. -/
def WritesDecimal (text : List Char) (negative : Bool) (decimal : Decimal) : Prop :=
  ∃ signed lead run after, text = lead ++ run ++ spaces after ∧ Lead signed negative lead ∧
    Decimal.Numeral run decimal

theorem mem_spaces {char : Char} {blanks : ℕ} (h : char ∈ spaces blanks) : char = ' ' :=
  List.eq_of_mem_replicate h

theorem Lead.isNumeralChar_eq_false {signed negative : Bool} {lead : List Char} {char : Char}
    (hlead : Lead signed negative lead) (h : char ∈ lead) :
    Decimal.isNumeralChar char = false := by
  cases hlead with
  | unsigned blanks =>
    rw [mem_spaces h]
    rfl
  | signed before between hsign =>
    rcases List.mem_append.mp h with hspace | hbehind
    · rw [mem_spaces hspace]
      rfl
    · rcases List.mem_cons.mp hbehind with rfl | hspace
      · rcases sign?_cases hsign with ⟨rfl, -⟩ | ⟨rfl, -⟩
        · rfl
        · rfl
      · rw [mem_spaces hspace]
        rfl

/-- Only a minus sign in the lead makes the number negative. -/
theorem Lead.minus_mem_iff {signed negative : Bool} {lead : List Char}
    (hlead : Lead signed negative lead) : '-' ∈ lead ↔ negative = true := by
  have hspaces : ∀ blanks, '-' ∉ spaces blanks := fun blanks hminus =>
    absurd (mem_spaces hminus) (by decide)
  cases hlead with
  | unsigned blanks => simp [hspaces blanks]
  | signed before between hsign =>
    rcases sign?_cases hsign with ⟨rfl, rfl⟩ | ⟨rfl, rfl⟩
    · simp [hspaces before, hspaces between]
    · simp

theorem Decimal.Numeral.ofDigitChars_filter {run : List Char} {decimal : Decimal}
    (h : Decimal.Numeral run decimal) :
    Nat.ofDigitChars 10 (run.filter Char.isDigit) 0 = decimal.coefficient := by
  rcases h.cases with ⟨-, hall, rfl⟩ | ⟨whole, fraction, rfl, -, hwhole, hfraction, rfl⟩
  · rw [List.filter_eq_self.mpr hall]
  · rw [List.filter_append, List.filter_cons_of_neg (by decide), List.filter_eq_self.mpr hwhole,
      List.filter_eq_self.mpr hfraction]

namespace WritesDecimal

variable {text : List Char} {negative : Bool} {decimal : Decimal}

/-- Around the run of digits and points there are none. -/
theorem exists_run (h : WritesDecimal text negative decimal) :
    ∃ run, Decimal.Numeral run decimal ∧ ('-' ∈ text ↔ negative = true) ∧
      ∀ test : Char → Bool, (∀ char, Decimal.isNumeralChar char = false → test char = false) →
        text.filter test = run.filter test := by
  obtain ⟨signed, lead, run, after, rfl, hlead, hnumeral⟩ := h
  refine ⟨run, hnumeral, ?_, ?_⟩
  · have hrun : '-' ∉ run := fun hminus => absurd (hnumeral.chars '-' hminus) (by decide)
    have hafter : '-' ∉ spaces after := fun hminus => absurd (mem_spaces hminus) (by decide)
    rw [← hlead.minus_mem_iff]
    simp [hrun, hafter]
  · intro test htest
    have hlead' : lead.filter test = [] := by
      rw [List.filter_eq_nil_iff]
      intro char hchar
      simp [htest char (hlead.isNumeralChar_eq_false hchar)]
    have hafter : (spaces after).filter test = [] := by
      rw [List.filter_eq_nil_iff]
      intro char hchar
      rw [mem_spaces hchar]
      simp [htest ' ' rfl]
    rw [List.filter_append, List.filter_append, hlead', hafter, List.nil_append, List.append_nil]

theorem length_le_iff (h : WritesDecimal text negative decimal) {count : ℕ} :
    (significantDigits text).length ≤ count ↔ FitsDigits count decimal.coefficient := by
  obtain ⟨run, hnumeral, -, hfilter⟩ := h.exists_run
  have hdigits : ∀ char, Decimal.isNumeralChar char = false → char.isDigit = false := by
    intro char hchar
    exact (Bool.or_eq_false_iff.mp hchar).1
  rw [length_significantDigits_le_iff, hfilter _ hdigits, hnumeral.ofDigitChars_filter]

theorem numeralValue_eq (h : WritesDecimal text negative decimal) :
    numeralValue text = withSign negative decimal.toRat := by
  obtain ⟨run, hnumeral, hminus, hfilter⟩ := h.exists_run
  have hrun : text.filter Decimal.isNumeralChar = run := by
    rw [hfilter _ fun _ hchar => hchar, List.filter_eq_self.mpr hnumeral.chars]
  rw [numeralValue, hrun, Decimal.toRat_of_reads hnumeral.reads]
  cases negative <;> simp [hminus]

end WritesDecimal

/-- A numeral for a finite number has its sign, and a decimal that is read as its magnitude. -/
theorem IsNumeralFor.exists_writesDecimal {text : String} {negative : Bool} {m : Magnitude}
    (h : IsNumeralFor text (.finite negative m)) :
    ∃ decimal, WritesDecimal text.toList negative decimal ∧ decimal.magnitude? = some m := by
  obtain ⟨hform, hvalue⟩ := h
  obtain ⟨signed, negative', lead, run, decimal, after, htext, hlead, hnumeral⟩ :=
    isSingleNumber_iff.mp hform
  have heq := evaluate_of_number hlead hnumeral htext
  rw [hvalue, Except.ok.injEq, Decimal.value] at heq
  cases hmagnitude : decimal.magnitude? with
  | none =>
    rw [hmagnitude] at heq
    cases negative' <;> cases heq
  | some m' =>
    rw [hmagnitude] at heq
    have hsame : negative = negative' ∧ m = m' := by
      cases negative' <;> exact Binary64.finite.inj heq
    obtain ⟨rfl, rfl⟩ := hsame
    exact ⟨decimal, ⟨signed, lead, run, after, htext, hlead, hnumeral⟩, hmagnitude⟩

theorem writesDecimal_text (negative : Bool) (m : Magnitude) :
    WritesDecimal (Binary64.finite negative m).text.toList negative m.shortest := by
  have hlead : ∃ signed, Lead signed negative (minusIf negative) := by
    cases negative with
    | false => exact ⟨false, .unsigned 0⟩
    | true => exact ⟨true, .signed 0 0 rfl⟩
  obtain ⟨signed, hlead⟩ := hlead
  refine ⟨signed, minusIf negative, m.shortest.toChars, 0, ?_, hlead, m.shortest.numeral_toChars⟩
  rw [toList_text, toChars_finite, spaces_zero, List.append_nil]

/-- The text of a finite number is a numeral for it. -/
theorem isNumeralFor_text {x : Binary64} (hx : x.isFinite = true) : IsNumeralFor x.text x := by
  refine ⟨?_, evaluateWith_text {} hx⟩
  cases x with
  | finite negative m =>
    obtain ⟨signed, lead, run, after, htext, hlead, hnumeral⟩ := writesDecimal_text negative m
    exact isSingleNumber_iff.mpr ⟨signed, negative, lead, run, _, after, htext, hlead, hnumeral⟩
  | infinite negative => cases hx
  | nan => cases hx

theorem toRat_finite_eq_zero_iff {negative : Bool} {m : Magnitude} :
    (Binary64.finite negative m).toRat = 0 ↔ m = .zero := by
  have hmagnitude : m.toRat = 0 ↔ m = .zero := by
    rw [Magnitude.toRat, div_eq_zero_iff, or_iff_left unitsPerOne_pos.ne', Nat.cast_eq_zero,
      Magnitude.units_eq_zero_iff]
  rw [Binary64.toRat_finite, ← hmagnitude]
  cases negative with
  | false => rfl
  | true => exact neg_eq_zero

theorem abs_sub_numeralValue {text : List Char} {negative : Bool} {decimal : Decimal}
    (h : WritesDecimal text negative decimal) (m : Magnitude) :
    |(Binary64.finite negative m).toRat - numeralValue text| = |m.toRat - decimal.toRat| := by
  rw [h.numeralValue_eq, Binary64.toRat_finite]
  cases negative with
  | false => rfl
  | true =>
    rw [if_pos rfl, withSign, if_pos rfl, neg_sub_neg]
    exact abs_sub_comm _ _

/-- The text of a finite number other than zero is as short as possible and as near as possible.
    No numeral for the number has fewer significant digits, and none with as few is nearer to its
    exact value. -/
theorem text_shortest_nearest {x : Binary64} (hx : x.isFinite = true) (hzero : x.toRat ≠ 0) :
    IsNumeralFor x.text x ∧ ∀ text, IsNumeralFor text x →
      (significantDigits x.text.toList).length ≤ (significantDigits text.toList).length ∧
      ((significantDigits text.toList).length = (significantDigits x.text.toList).length →
        |x.toRat - numeralValue x.text.toList| ≤ |x.toRat - numeralValue text.toList|) := by
  refine ⟨isNumeralFor_text hx, fun text htext => ?_⟩
  cases x with
  | finite negative m =>
    have hm : m ≠ .zero := mt toRat_finite_eq_zero_iff.mpr hzero
    obtain ⟨decimal, hwrites, hreads⟩ := htext.exists_writesDecimal
    have hshown := writesDecimal_text negative m
    have hfits := hwrites.length_le_iff.mp le_rfl
    refine ⟨hshown.length_le_iff.mpr (Magnitude.fitsDigits_shortest hm hreads hfits), ?_⟩
    intro hlength
    rw [abs_sub_numeralValue hshown, abs_sub_numeralValue hwrites]
    refine Magnitude.abs_sub_shortest_le hm hreads hfits fun fewer hfewer => ?_
    rw [hlength]
    exact hshown.length_le_iff.mpr hfewer
  | infinite negative => cases hx
  | nan => cases hx

/-- Halfway between two numbers, a numeral of as many digits. -/
theorem text_shortest_nearest_halfway :
    ∃ x : Binary64, x.text = "9007199254740992" ∧ IsNumeralFor "9007199254740993" x ∧
      |x.toRat - numeralValue x.text.toList|
        ≤ |x.toRat - numeralValue "9007199254740993".toList| := by
  let x : Binary64 := .finite false ⟨1076 * binadeSize, by decide⟩
  have htext : x.text = "9007199254740992" := by decide +kernel
  have hform : IsSingleNumber "9007199254740993".toList :=
    ⟨0, [], 0, "9007199254740993".toList, [], 0, by decide, .inl rfl, by decide,
      List.all_eq_true.mp (by decide), .inl rfl⟩
  have hread : Expr.read (Settings.dialect {}) "9007199254740993"
      = .ok (.number ⟨9007199254740993, 0⟩) := by
    rw [Scan.read_eq_run]
    rfl
  have hvalue : Decimal.value ⟨9007199254740993, 0⟩ = x := by decide +kernel
  have hnumeral : IsNumeralFor "9007199254740993" x :=
    ⟨hform, (evaluateWith_eq_ok_of_generous rfl).mpr ⟨_, hread, hvalue⟩⟩
  have hzero : x.toRat ≠ 0 := mt toRat_finite_eq_zero_iff.mp (by decide)
  have hnearest := ((text_shortest_nearest rfl hzero).2 _ hnumeral).2
  refine ⟨x, htext, hnumeral, hnearest ?_⟩
  rw [htext]
  decide

end DeskCalculator
