import DeskCalculator.Proofs.ExactArithmetic
import DeskCalculator.Proofs.GrammarCompleteness
import DeskCalculator.Proofs.Policies

/-!
# Evaluating exactly

The grammar once more, with the rationals for values: literals denote what their digits
say, and the four operations are the exact ones (`Denotes`).  The relation can demand something
of every literal, of every intermediate result and of every divisor.  Where it demands nothing, it
covers the whole language (`Derives.exists_denotes`).  Where literals and results have to be
representable and divisors other than zero, the calculator rounds nothing, and its answer is the
exact one (`evaluate_exact`).

The induction is on the derivation of the exact value, beside which a derivation of the
binary value is built (`Denotes.exists_derives`).  No other derivation matters, because the
binary value of a text is unique.
-/

namespace DeskCalculator

/-! ### Exact values -/

/-- A text of the given level has the given exact value, where every literal and every result of
    an operation on the way to it is admitted, and every divisor is allowed. -/
inductive Denotes (Admits Divides : ℚ → Prop) : Level → List Char → ℚ → Prop where
  | term {text : List Char} {q : ℚ} :
      Denotes Admits Divides .term text q → Denotes Admits Divides .expression text q
  | add {left right : List Char} {p q : ℚ} (blanks : Nat) :
      Denotes Admits Divides .expression left p → Denotes Admits Divides .term right q →
      Admits (p + q) →
      Denotes Admits Divides .expression (left ++ spaces blanks ++ '+' :: right) (p + q)
  | sub {left right : List Char} {p q : ℚ} (blanks : Nat) :
      Denotes Admits Divides .expression left p → Denotes Admits Divides .term right q →
      Admits (p - q) →
      Denotes Admits Divides .expression (left ++ spaces blanks ++ '-' :: right) (p - q)
  | factor {text : List Char} {q : ℚ} :
      Denotes Admits Divides .factor text q → Denotes Admits Divides .term text q
  | mul {left right : List Char} {p q : ℚ} (blanks : Nat) :
      Denotes Admits Divides .term left p → Denotes Admits Divides .factor right q →
      Admits (p * q) →
      Denotes Admits Divides .term (left ++ spaces blanks ++ '*' :: right) (p * q)
  | div {left right : List Char} {p q : ℚ} (blanks : Nat) :
      Denotes Admits Divides .term left p → Denotes Admits Divides .factor right q →
      Divides q → Admits (p / q) →
      Denotes Admits Divides .term (left ++ spaces blanks ++ '/' :: right) (p / q)
  | signs {minuses : Nat} {chain text : List Char} {q : ℚ} :
      SignChain chain minuses → Denotes Admits Divides .primary text q →
      Denotes Admits Divides .factor (chain ++ text) (if minuses % 2 = 1 then -q else q)
  | group {text : List Char} {q : ℚ} (before after : Nat) :
      Denotes Admits Divides .expression text q →
      Denotes Admits Divides .primary (spaces before ++ '(' :: text ++ spaces after ++ [')']) q
  | whole {digits : List Char} (blanks : Nat) :
      digits ≠ [] → (∀ char ∈ digits, char.isDigit = true) → Admits (denoted digits) →
      Denotes Admits Divides .primary (spaces blanks ++ digits) (denoted digits)
  | point {digits fraction : List Char} (blanks : Nat) :
      digits ≠ [] → (∀ char ∈ digits, char.isDigit = true) →
      (∀ char ∈ fraction, char.isDigit = true) → Admits (denoted (digits ++ '.' :: fraction)) →
      Denotes Admits Divides .primary (spaces blanks ++ digits ++ '.' :: fraction)
        (denoted (digits ++ '.' :: fraction))

/-- A whole text has the given exact value: it is an expression with spaces behind it. -/
def DenotesText (Admits Divides : ℚ → Prop) (text : List Char) (q : ℚ) : Prop :=
  ∃ expression blanks, text = expression ++ spaces blanks ∧
    Denotes Admits Divides .expression expression q

section

variable {Admits Admits' Divides : ℚ → Prop} (himp : ∀ q, Admits q → Admits' q)
include himp

theorem Denotes.mono {level : Level} {text : List Char} {q : ℚ}
    (h : Denotes Admits Divides level text q) : Denotes Admits' Divides level text q := by
  induction h with
  | term _ ih => exact .term ih
  | add blanks _ _ hresult ihleft ihright => exact .add blanks ihleft ihright (himp _ hresult)
  | sub blanks _ _ hresult ihleft ihright => exact .sub blanks ihleft ihright (himp _ hresult)
  | factor _ ih => exact .factor ih
  | mul blanks _ _ hresult ihleft ihright => exact .mul blanks ihleft ihright (himp _ hresult)
  | div blanks _ _ hdivisor hresult ihleft ihright =>
    exact .div blanks ihleft ihright hdivisor (himp _ hresult)
  | signs hchain _ ih => exact .signs hchain ih
  | group before after _ ih => exact .group before after ih
  | whole blanks hdigits hall hliteral => exact .whole blanks hdigits hall (himp _ hliteral)
  | point blanks hdigits hall hfraction hliteral =>
    exact .point blanks hdigits hall hfraction (himp _ hliteral)

theorem DenotesText.mono {text : List Char} {q : ℚ} (h : DenotesText Admits Divides text q) :
    DenotesText Admits' Divides text q := by
  obtain ⟨expression, blanks, htext, hdenotes⟩ := h
  exact ⟨expression, blanks, htext, hdenotes.mono himp⟩

end

/-- No demand at all. -/
def Anything (_ : ℚ) : Prop := True

/-- Every text of the language has an exact value, if nothing is demanded of it.  What is divided
    by zero comes to zero then. -/
theorem Derives.exists_denotes {level : Level} {depth : Nat} {text : List Char} {x : Binary64}
    (h : Derives level depth text x) : ∃ q, Denotes Anything Anything level text q := by
  induction h with
  | term _ ih =>
    obtain ⟨q, hq⟩ := ih
    exact ⟨q, .term hq⟩
  | add blanks _ _ ihleft ihright =>
    obtain ⟨p, hp⟩ := ihleft
    obtain ⟨q, hq⟩ := ihright
    exact ⟨p + q, .add blanks hp hq trivial⟩
  | sub blanks _ _ ihleft ihright =>
    obtain ⟨p, hp⟩ := ihleft
    obtain ⟨q, hq⟩ := ihright
    exact ⟨p - q, .sub blanks hp hq trivial⟩
  | factor _ ih =>
    obtain ⟨q, hq⟩ := ih
    exact ⟨q, .factor hq⟩
  | mul blanks _ _ ihleft ihright =>
    obtain ⟨p, hp⟩ := ihleft
    obtain ⟨q, hq⟩ := ihright
    exact ⟨p * q, .mul blanks hp hq trivial⟩
  | div blanks _ _ ihleft ihright =>
    obtain ⟨p, hp⟩ := ihleft
    obtain ⟨q, hq⟩ := ihright
    exact ⟨p / q, .div blanks hp hq trivial trivial⟩
  | signs hchain _ ih =>
    obtain ⟨q, hq⟩ := ih
    exact ⟨_, .signs hchain hq⟩
  | group before after _ ih =>
    obtain ⟨q, hq⟩ := ih
    exact ⟨q, .group before after hq⟩
  | whole blanks hdigits hall => exact ⟨_, .whole blanks hdigits hall trivial⟩
  | point blanks hdigits hall hfraction =>
    exact ⟨_, .point blanks hdigits hall hfraction trivial⟩

/-! ### The binary value beside the exact one -/

theorem Decimal.Numeral.exactly_value {run : List Char} {decimal : Decimal}
    (h : Numeral run decimal) (hliteral : Representable (denoted run)) :
    decimal.value.Exactly (denoted run) := by
  rw [← Decimal.toRat_of_reads h.reads] at hliteral ⊢
  exact Decimal.exactly_value hliteral

/-- Where everything on the way is representable, the binary value is the exact one. -/
theorem Denotes.exists_derives {level : Level} {text : List Char} {q : ℚ}
    (h : Denotes Representable (· ≠ 0) level text q) :
    ∃ depth x, Derives level depth text x ∧ x.Exactly q := by
  induction h with
  | term _ ih =>
    obtain ⟨depth, x, hderives, hx⟩ := ih
    exact ⟨depth, x, .term hderives, hx⟩
  | add blanks _ _ hresult ihleft ihright =>
    obtain ⟨m, x, hleft, hx⟩ := ihleft
    obtain ⟨n, y, hright, hy⟩ := ihright
    exact ⟨max m n, x + y, .add blanks hleft hright, hx.add hy hresult⟩
  | sub blanks _ _ hresult ihleft ihright =>
    obtain ⟨m, x, hleft, hx⟩ := ihleft
    obtain ⟨n, y, hright, hy⟩ := ihright
    exact ⟨max m n, x - y, .sub blanks hleft hright, hx.sub hy hresult⟩
  | factor _ ih =>
    obtain ⟨depth, x, hderives, hx⟩ := ih
    exact ⟨depth, x, .factor hderives, hx⟩
  | mul blanks _ _ hresult ihleft ihright =>
    obtain ⟨m, x, hleft, hx⟩ := ihleft
    obtain ⟨n, y, hright, hy⟩ := ihright
    exact ⟨max m n, x * y, .mul blanks hleft hright, hx.mul hy hresult⟩
  | div blanks _ _ hzero hresult ihleft ihright =>
    obtain ⟨m, x, hleft, hx⟩ := ihleft
    obtain ⟨n, y, hright, hy⟩ := ihright
    exact ⟨max m n, x / y, .div blanks hleft hright, hx.div hy hzero hresult⟩
  | @signs minuses chain text q hchain _ ih =>
    obtain ⟨depth, x, hderives, hx⟩ := ih
    refine ⟨depth, _, .signs hchain hderives, ?_⟩
    split
    · exact hx.neg
    · exact hx
  | group before after _ ih =>
    obtain ⟨depth, x, hderives, hx⟩ := ih
    exact ⟨depth + 1, x, .group before after hderives, hx⟩
  | whole blanks hdigits hall hliteral =>
    have hnumeral := Decimal.numeral_whole hdigits hall
    exact ⟨0, _, .whole blanks hdigits hall, hnumeral.exactly_value hliteral⟩
  | point blanks hdigits hall hfraction hliteral =>
    have hnumeral := Decimal.numeral_point hdigits hall hfraction
    exact ⟨0, _, .point blanks hdigits hall hfraction, hnumeral.exactly_value hliteral⟩

theorem DenotesText.exists_derivesText {text : List Char} {q : ℚ}
    (h : DenotesText Representable (· ≠ 0) text q) :
    ∃ depth x, DerivesText depth text x ∧ x.Exactly q := by
  obtain ⟨expression, blanks, htext, hdenotes⟩ := h
  obtain ⟨depth, x, hderives, hx⟩ := hdenotes.exists_derives
  exact ⟨depth, x, ⟨expression, blanks, htext, hderives⟩, hx⟩

/-! ### The value of a text that is accepted -/

/-- A text of the language has all its groups closed, however deep they are nested. -/
theorem DerivesText.count_open {text : String} {count depth : Nat} {x : Binary64}
    (h : DerivesText depth (withClosers text count).toList x) :
    text.toList.count '(' = text.toList.count ')' + count := by
  let unlimited : Dialect := ⟨true, none⟩
  have hallows : unlimited.Allows 0 depth := fun _ _ => rfl
  obtain ⟨expr, hread, -⟩ := h.read hallows
  rw [Scan.read_eq_run, toList_withClosers] at hread
  exact (Scan.run_of_run_closers (d := ⟨false, none⟩) (by rfl) (by rfl) (by rfl) hread).2

/-- An accepted text is in the language once the groups that it leaves open are closed. -/
theorem exists_derivesText_closers {text : String} {x : Binary64} (h : evaluate text = .ok x) :
    ∃ closers depth, DerivesText depth (withClosers text closers).toList x := by
  obtain ⟨closers, hstrict⟩ := (evaluateWith_generous_eq_iff (.ok x)).mp h
  obtain ⟨expr, hread, rfl⟩ := (evaluateWith_eq_ok_of_generous rfl).mp hstrict
  obtain ⟨depth, -, hderives⟩ := Expr.derivesText_of_read rfl hread
  exact ⟨closers, depth, hderives⟩

/-- However they are closed, the text keeps its value. -/
theorem value_eq_of_derivesText_closers {text : String} {x y : Binary64} {count depth : Nat}
    (h : evaluate text = .ok x) (hderives : DerivesText depth (withClosers text count).toList y) :
    x = y := by
  obtain ⟨closers, depth', hderives'⟩ := exists_derivesText_closers h
  have hclosers : closers = count := by
    have hopen := hderives.count_open
    have hopen' := hderives'.count_open
    omega
  rw [hclosers] at hderives'
  exact hderives'.value_unique hderives

theorem exactly_of_denotesText {text : String} {x : Binary64} (h : evaluate text = .ok x)
    {closers : Nat} {q : ℚ}
    (hdenotes : DenotesText Representable (· ≠ 0) (withClosers text closers).toList q) :
    x.Exactly q := by
  obtain ⟨depth, y, hderives, hy⟩ := hdenotes.exists_derivesText
  rw [value_eq_of_derivesText_closers h hderives]
  exact hy

/-- Evaluation is exact whenever it can be.  A text that is accepted has an exact value, once the
    groups that it leaves open are closed.  If every literal and every intermediate result on the
    way to it is representable, and no divisor is zero, then the calculator gives that value; in
    particular if they all are whole numbers up to `2 ^ 53` in magnitude. -/
theorem evaluate_exact {text : String} {x : Binary64} (h : evaluate text = .ok x) :
    (∃ closers q, DenotesText Anything Anything (withClosers text closers).toList q) ∧
    ∀ closers q,
      (DenotesText Representable (· ≠ 0) (withClosers text closers).toList q → x.Exactly q) ∧
      (DenotesText IsSmallInteger (· ≠ 0) (withClosers text closers).toList q → x.Exactly q) := by
  constructor
  · obtain ⟨closers, depth, expression, blanks, htext, hderives⟩ := exists_derivesText_closers h
    obtain ⟨q, hdenotes⟩ := hderives.exists_denotes
    exact ⟨closers, q, expression, blanks, htext, hdenotes⟩
  · intro closers q
    refine ⟨exactly_of_denotesText h, fun hdenotes => ?_⟩
    exact exactly_of_denotesText h (hdenotes.mono fun q hq => hq.representable)

theorem denotes_digits {digits : List Char} {n : ℕ} (hdigits : digits ≠ [])
    (hall : ∀ char ∈ digits, char.isDigit = true) (hn : Nat.ofDigitChars 10 digits 0 = n)
    (hsmall : n ≤ 2 ^ 53) : Denotes IsSmallInteger (· ≠ 0) .term digits n := by
  have hvalue : denoted digits = n := by
    rw [denoted_whole fun hpoint => absurd (hall '.' hpoint) (by decide), hn]
  have hliteral : IsSmallInteger (denoted digits) := by
    refine ⟨n, ?_, hvalue.symm⟩
    rw [Nat.abs_cast]
    exact_mod_cast hsmall
  rw [← hvalue]
  exact .factor (.signs .nil (.whole 0 hdigits hall hliteral))

/-- A group that is left open, around the last sum of its kind that is known to be exact. -/
theorem evaluate_exact_unclosed :
    ∃ x, evaluate "-(9007199254740991+1" = .ok x ∧ x.Exactly (-9007199254740992) := by
  have hread : Expr.read (Settings.dialect {}) "-(9007199254740991+1"
      = .ok (.negated (.binary .add (.number ⟨9007199254740991, 0⟩) (.number ⟨1, 0⟩))) := by
    rw [Scan.read_eq_run]
    rfl
  have haccepted := (evaluateWith_eq_ok_of_generous (s := {}) rfl).mpr ⟨_, hread, rfl⟩
  have hleft : Denotes IsSmallInteger (· ≠ 0) .term "9007199254740991".toList
      (9007199254740991 : ℕ) :=
    denotes_digits (by decide) (List.all_eq_true.mp (by decide)) (by decide) (by decide)
  have hright : Denotes IsSmallInteger (· ≠ 0) .term "1".toList (1 : ℕ) :=
    denotes_digits (by decide) (List.all_eq_true.mp (by decide)) (by decide) (by decide)
  have hsum := Denotes.add 0 (.term hleft) hright
    ⟨9007199254740992, by decide, by norm_num⟩
  have hdenotes : Denotes IsSmallInteger (· ≠ 0) .expression "-(9007199254740991+1)".toList _ :=
    .term (.factor (.signs (.minus 0 .nil) (.group 0 0 hsum)))
  have hexact := ((evaluate_exact haccepted).2 1 _).2 ⟨_, 0, by decide, hdenotes⟩
  norm_num at hexact
  exact ⟨_, haccepted, hexact⟩

end DeskCalculator
