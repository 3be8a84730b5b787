import DeskCalculator.Proofs.NearestRounding
import DeskCalculator.Proofs.Numeral
import Mathlib.Data.List.TakeWhile

/-!
# A number is read as the nearest one

The maximal run of digits and points at a cursor denotes a rational, by the place of each
digit.  Two points spoil the run, and nothing else does; otherwise the number that is read
is the one nearest to that rational, whatever the length of the run (`decimal_correctly_rounded`).

The reader joins the digits on both sides of the point to one whole number and divides by
a power of ten.  That this is the same rational (`Decimal.toRat_of_reads`) is all that has
to be known about runs: order, padding with zeros and the two ends of the range are then
matters of `RoundsTo`.
-/

namespace DeskCalculator

/-! ### The rational that a run denotes -/

/-- Digits behind the point count tenths, hundredths, and so on. -/
def fractionValue : List Char → ℚ
  | [] => 0
  | char :: rest => ((char.toNat - '0'.toNat : ℕ) + fractionValue rest) / 10

/-- What digits with at most one point among them denote. -/
def denoted (run : List Char) : ℚ :=
  Nat.ofDigitChars 10 (run.takeWhile (· != '.')) 0 +
    fractionValue (run.dropWhile (· != '.')).tail

theorem fractionValue_eq (fraction : List Char) :
    fractionValue fraction = Nat.ofDigitChars 10 fraction 0 / 10 ^ fraction.length := by
  induction fraction with
  | nil => simp [fractionValue]
  | cons char rest ih =>
    have hshift := @Nat.ofDigitChars_eq_ofDigitChars_zero rest (char.toNat - '0'.toNat)
    rw [fractionValue, ih, Nat.ofDigitChars_cons, Nat.mul_zero, Nat.zero_add, hshift,
      List.length_cons, pow_succ]
    push_cast
    field_simp

theorem fractionValue_append_zeros (fraction : List Char) (zeros : Nat) :
    fractionValue (fraction ++ List.replicate zeros '0') = fractionValue fraction := by
  rw [fractionValue_eq, fractionValue_eq, Nat.ofDigitChars_append, Nat.ofDigitChars_replicate_zero,
    List.length_append, List.length_replicate]
  push_cast
  field_simp
  ring

theorem denoted_whole {run : List Char} (hrun : '.' ∉ run) :
    denoted run = Nat.ofDigitChars 10 run 0 := by
  have hpass := Decimal.bne_point_of_not_mem hrun
  have htake : run.takeWhile (· != '.') = run := List.takeWhile_eq_self_iff.mpr hpass
  have hdrop : run.dropWhile (· != '.') = [] := List.dropWhile_eq_nil_iff.mpr hpass
  rw [denoted, htake, hdrop, List.tail_nil, fractionValue, add_zero]

theorem denoted_point {whole : List Char} (hwhole : '.' ∉ whole) (fraction : List Char) :
    denoted (whole ++ '.' :: fraction)
      = Nat.ofDigitChars 10 whole 0 + fractionValue fraction := by
  have hpass := Decimal.bne_point_of_not_mem hwhole
  simp [denoted, List.takeWhile_append_of_pos hpass, List.dropWhile_append_of_pos hpass]

theorem denoted_nonneg (run : List Char) : 0 ≤ denoted run := by
  rw [denoted, fractionValue_eq]
  positivity

/-- The exact value of a decimal. -/
def Decimal.toRat (d : Decimal) : ℚ := d.coefficient / 10 ^ d.places

theorem Decimal.toRat_of_reads {run : List Char} {d : Decimal} (h : ofChars? run = some d) :
    d.toRat = denoted run := by
  rcases ofChars?_eq_some h with ⟨hrun, rfl⟩ | ⟨whole, fraction, rfl, hwhole, -, rfl⟩
  · rw [denoted_whole hrun, toRat, pow_zero, div_one]
  · rw [denoted_point hwhole, fractionValue_eq, toRat, Nat.ofDigitChars_append,
      Nat.ofDigitChars_eq_ofDigitChars_zero]
    push_cast
    field_simp

theorem Decimal.denominator_pos (d : Decimal) : 0 < Nat.pow 10 d.places := Nat.pow_pos (by decide)

/-- The quotient that is rounded when a decimal is read. -/
theorem Decimal.quotient_eq_toRat (d : Decimal) :
    ((d.coefficient * unitsPerOne : ℕ) / (Nat.pow 10 d.places : ℕ) / unitsPerOne : ℚ)
      = d.toRat := by
  have hunits := unitsPerOne_pos.ne'
  rw [toRat, Nat.pow_eq, Nat.cast_mul, Nat.cast_pow, Nat.cast_ofNat]
  field_simp

theorem Decimal.roundsTo_value (d : Decimal) : RoundsTo d.toRat d.value := by
  have hround := roundsTo_orInfinite_ofRatio? (d.coefficient * unitsPerOne) d.denominator_pos
  rwa [d.quotient_eq_toRat] at hround

/-- Halfway between two whole numbers that are neighbours, the even one. -/
example : (Decimal.mk 9007199254740993 0).value = (Decimal.mk 9007199254740992 0).value := by
  decide +kernel

/-! ### Padding -/

/-- Two runs of which the second says nothing more: it has zeros in front, a point at its end,
    or more zeros behind its point. -/
inductive Padded : List Char → List Char → Prop where
  | leading (zeros : Nat) (run : List Char) : Padded run (List.replicate zeros '0' ++ run)
  | point {run : List Char} (hrun : '.' ∉ run) : Padded run (run ++ ['.'])
  | trailing (zeros : Nat) {run : List Char} (hrun : '.' ∈ run) :
      Padded run (run ++ List.replicate zeros '0')

theorem point_not_mem_replicate (zeros : Nat) : '.' ∉ List.replicate zeros '0' := by
  intro hpoint
  exact absurd (List.eq_of_mem_replicate hpoint) (by decide)

theorem Padded.denoted_eq {run run' : List Char} (h : Padded run run') :
    denoted run' = denoted run := by
  cases h with
  | leading zeros =>
    have hzeros := point_not_mem_replicate zeros
    rcases Decimal.whole_or_point run with hrun | ⟨whole, fraction, rfl, hwhole⟩
    · have hall : '.' ∉ List.replicate zeros '0' ++ run := by simp [hrun]
      rw [denoted_whole hall, denoted_whole hrun, Nat.ofDigitChars_append,
        Nat.ofDigitChars_replicate_zero, Nat.mul_zero]
    · have hall : '.' ∉ List.replicate zeros '0' ++ whole := by simp [hwhole]
      rw [← List.append_assoc, denoted_point hall, denoted_point hwhole, Nat.ofDigitChars_append,
        Nat.ofDigitChars_replicate_zero, Nat.mul_zero]
  | point hrun => rw [denoted_point hrun, denoted_whole hrun, fractionValue, add_zero]
  | trailing zeros hrun =>
    obtain ⟨whole, fraction, rfl, hwhole⟩ := List.eq_append_cons_of_mem hrun
    rw [List.append_assoc, List.cons_append, denoted_point hwhole, denoted_point hwhole,
      fractionValue_append_zeros]

theorem Padded.count_lt {run run' : List Char} (h : Padded run run') (hcount : run.count '.' < 2) :
    run'.count '.' < 2 := by
  cases h with
  | leading zeros => simpa [List.count_replicate] using hcount
  | point hrun => simp [List.count_eq_zero.mpr hrun]
  | trailing zeros => simpa [List.count_replicate] using hcount

/-! ### At a cursor -/

namespace Cursor

/-- Reading here gives the number and goes on behind its run. -/
def GivesNumber (c : Cursor) (x : Binary64) : Prop :=
  ∃ reading, c.decimal = .ok reading ∧
    reading.next = (c.takeWhile Decimal.isNumeralChar).2 ∧ reading.value.value = x

variable {c c' : Cursor} {run run' : List Char} {x x' : Binary64}

theorem AtNumber.decimal_eq_error_iff (h : c.AtNumber run) {e : SyntaxError} :
    c.decimal = .error e ↔
      2 ≤ run.count '.' ∧ e = .malformedNumber (String.ofList run) c.position := by
  rw [← Decimal.ofChars?_eq_none_iff]
  constructor
  · intro herror
    cases hrun : Decimal.ofChars? run with
    | none =>
      rw [h.decimal_of_none hrun] at herror
      exact ⟨rfl, (Except.error.inj herror).symm⟩
    | some d =>
      obtain ⟨reading, hread, -⟩ := h.decimal_of_some hrun
      rw [hread] at herror
      cases herror
  · rintro ⟨hrun, rfl⟩
    exact h.decimal_of_none hrun

theorem AtNumber.givesNumber_iff (h : c.AtNumber run) :
    c.GivesNumber x ↔ run.count '.' < 2 ∧ RoundsTo (denoted run) x := by
  have hcount : Decimal.ofChars? run = none ↔ 2 ≤ run.count '.' := Decimal.ofChars?_eq_none_iff
  cases hrun : Decimal.ofChars? run with
  | none =>
    have hspoilt := hcount.mp hrun
    constructor
    · rintro ⟨reading, hread, -⟩
      rw [h.decimal_of_none hrun] at hread
      cases hread
    · rintro ⟨hless, -⟩
      omega
  | some d =>
    have hless : run.count '.' < 2 := by
      by_contra hspoilt
      rw [hcount.mpr (Nat.le_of_not_lt hspoilt)] at hrun
      cases hrun
    have hround : RoundsTo (denoted run) d.value := by
      rw [← Decimal.toRat_of_reads hrun]
      exact d.roundsTo_value
    obtain ⟨reading, hread, hnext, hvalue⟩ := h.decimal_of_some hrun
    constructor
    · rintro ⟨other, hother, -, rfl⟩
      rw [hread] at hother
      cases hother
      rw [hvalue]
      exact ⟨hless, hround⟩
    · rintro ⟨-, hx⟩
      refine ⟨reading, hread, hnext, ?_⟩
      rw [hvalue]
      exact hround.eq hx

theorem AtNumber.exists_givesNumber (h : c.AtNumber run) (hcount : run.count '.' < 2) :
    ∃ x, c.GivesNumber x := by
  cases hrun : Decimal.ofChars? run with
  | none =>
    have hspoilt := Decimal.ofChars?_eq_none_iff.mp hrun
    omega
  | some d =>
    obtain ⟨reading, hread, hnext, -⟩ := h.decimal_of_some hrun
    exact ⟨_, reading, hread, hnext, rfl⟩

end Cursor

/-- Where a number starts, reading fails exactly on a second point in its run.  Otherwise it
    gives the nearest number, which padding does not change, and which does not fall when the
    rational grows. -/
theorem decimal_correctly_rounded {c : Cursor} {run : List Char} (h : c.AtNumber run) :
    (∀ e, c.decimal = .error e ↔
      2 ≤ run.count '.' ∧ e = .malformedNumber (String.ofList run) c.position) ∧
    (run.count '.' < 2 → ∃ x, c.GivesNumber x) ∧
    ∀ x, c.GivesNumber x →
      RoundsTo (denoted run) x ∧
      (x.isFinite = true → ∀ y : Binary64, y.isFinite = true →
        |denoted run - x.toRat| ≤ |denoted run - y.toRat|) ∧
      (x = .zero false ↔ denoted run ≤ leastSubnormal / 2) ∧
      (x = .infinite false ↔ overflowBound ≤ denoted run) ∧
      (∀ c' run', Cursor.AtNumber c' run' → Padded run run' → c'.GivesNumber x) ∧
      ∀ c' run' x', Cursor.AtNumber c' run' → c'.GivesNumber x' → denoted run ≤ denoted run' →
        x ≤ x' := by
  refine ⟨fun e => h.decimal_eq_error_iff, h.exists_givesNumber, fun x hx => ?_⟩
  obtain ⟨hcount, hround⟩ := h.givesNumber_iff.mp hx
  have hnonneg := denoted_nonneg run
  refine ⟨hround, fun hfinite y hy => hround.abs_sub_toRat_le hnonneg hfinite hy,
    hround.eq_zero_iff hnonneg, hround.eq_infinite_iff, ?_, ?_⟩
  · intro c' run' h' hpadded
    rw [h'.givesNumber_iff, hpadded.denoted_eq]
    exact ⟨hpadded.count_lt hcount, hround⟩
  · intro c' run' x' h' hx' hle
    exact hround.le_of_le (h'.givesNumber_iff.mp hx').2 hle

/-- Halfway between two numbers, with zeros in front and without. -/
theorem decimal_correctly_rounded_halfway :
    (Cursor.ofText "9007199254740993*2").AtNumber "9007199254740993".toList ∧
      ∃ x, (Cursor.ofText "9007199254740993*2").GivesNumber x ∧
        RoundsTo 9007199254740993 x ∧ (Cursor.ofText "009007199254740993").GivesNumber x := by
  have h : (Cursor.ofText "9007199254740993*2").AtNumber "9007199254740993".toList :=
    ⟨by decide +kernel, by decide +kernel⟩
  have hpadded : (Cursor.ofText "009007199254740993").AtNumber
      (List.replicate 2 '0' ++ "9007199254740993".toList) :=
    ⟨by decide +kernel, by decide +kernel⟩
  have hdenoted : denoted "9007199254740993".toList = 9007199254740993 := by
    rw [denoted_whole (by decide +kernel)]
    exact congrArg Nat.cast (by decide +kernel)
  obtain ⟨-, hexists, hgives⟩ := decimal_correctly_rounded h
  obtain ⟨x, hx⟩ := hexists (by decide +kernel)
  obtain ⟨hround, -, -, -, hzeros, -⟩ := hgives x hx
  rw [hdenoted] at hround
  exact ⟨h, x, hx, hround, hzeros _ _ hpadded (.leading 2 _)⟩

end DeskCalculator
