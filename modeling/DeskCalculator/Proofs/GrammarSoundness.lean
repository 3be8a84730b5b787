import DeskCalculator.Proofs.Grammar
import DeskCalculator.Proofs.Numeral
import DeskCalculator.Proofs.OnePassReader

/-!
# What the reader accepts is in the language

Where every group has to be closed, each function of the reader takes from the text a
part that the grammar derives at the function's level, with the value of the
expression it returns (`reader_covers`).  The reader passes the spaces behind a part before
it looks for an operator, so a part is followed by spaces that belong to no level yet.
The loops for sums and products keep the part read so far, from where the rule started.
-/

namespace DeskCalculator

/-! ### What the reader accepts has a derivation -/

/-- So many more groups may be nested inside `depth` open ones. -/
def Dialect.Allows (d : Dialect) (depth more : Nat) : Prop :=
  ∀ k < more, d.allowsGroup (depth + k) = true

/-- What was read from one place to a later one: a text of the level, and spaces behind it. -/
def Covers (d : Dialect) (level : Level) (depth : Nat) (before after : List Char) (x : Binary64) :
    Prop :=
  ∃ nested text blanks, before = text ++ spaces blanks ++ after ∧ d.Allows depth nested ∧
    Derives level nested text x

variable {d : Dialect} {depth : Nat}

theorem Dialect.allows_max {m n : Nat} :
    d.Allows depth (max m n) ↔ d.Allows depth m ∧ d.Allows depth n := by
  constructor
  · intro h
    exact ⟨fun k hk => h k (by omega), fun k hk => h k (by omega)⟩
  · rintro ⟨hm, hn⟩ k hk
    rcases Nat.lt_or_ge k m with hk' | hk'
    · exact hm k hk'
    · exact hn k (by omega)

theorem Dialect.Allows.group {nested : Nat} (hgroup : d.allowsGroup depth = true)
    (hinside : d.Allows (depth + 1) nested) : d.Allows depth (nested + 1) := by
  intro k hk
  cases k with
  | zero => exact hgroup
  | succ k =>
    have := hinside k (by omega)
    rwa [Nat.add_assoc, Nat.add_comm 1] at this

theorem Derives.additive {m n : Nat} {left right : List Char} {x y : Binary64} {char : Char}
    {op : Operator} (hop : Operator.additive? char = some op) (blanks : Nat)
    (hleft : Derives .expression m left x) (hright : Derives .term n right y) :
    Derives .expression (max m n) (left ++ spaces blanks ++ char :: right) (op.apply x y) := by
  rcases Operator.additive?_cases hop with ⟨rfl, rfl⟩ | ⟨rfl, rfl⟩
  · exact .add blanks hleft hright
  · exact .sub blanks hleft hright

theorem Derives.multiplicative {m n : Nat} {left right : List Char} {x y : Binary64} {char : Char}
    {op : Operator} (hop : Operator.multiplicative? char = some op) (blanks : Nat)
    (hleft : Derives .term m left x) (hright : Derives .factor n right y) :
    Derives .term (max m n) (left ++ spaces blanks ++ char :: right) (op.apply x y) := by
  rcases Operator.multiplicative?_cases hop with ⟨rfl, rfl⟩ | ⟨rfl, rfl⟩
  · exact .mul blanks hleft hright
  · exact .div blanks hleft hright

/-- Spaces in front belong to a primary. -/
theorem Derives.spaces_append {nested : Nat} {text : List Char} {x : Binary64} (blanks : Nat)
    (h : Derives .primary nested text x) : Derives .primary nested (spaces blanks ++ text) x := by
  cases h with
  | group before after hinside =>
    have hgroup := Derives.group (blanks + before) after hinside
    rw [spaces_add] at hgroup
    simpa only [List.append_assoc] using hgroup
  | whole before hdigits hall =>
    have hwhole := Derives.whole (blanks + before) hdigits hall
    rw [spaces_add] at hwhole
    simpa only [List.append_assoc] using hwhole
  | point before hdigits hall hfraction =>
    have hpoint := Derives.point (blanks + before) hdigits hall hfraction
    rw [spaces_add] at hpoint
    simpa only [List.append_assoc] using hpoint

theorem Cursor.rest_eq_spaces (c : Cursor) :
    ∃ blanks, c.rest = spaces blanks ++ c.skipSpaces.rest := by
  obtain ⟨position, rest⟩ := c
  show ∃ blanks, rest = spaces blanks ++ rest.dropWhile (· == ' ')
  induction rest with
  | nil => exact ⟨0, rfl⟩
  | cons char rest ih =>
    by_cases hchar : char = ' '
    · obtain ⟨blanks, hrest⟩ := ih
      refine ⟨blanks + 1, ?_⟩
      subst hchar
      rw [List.dropWhile_cons_of_pos (by rfl)]
      exact congrArg (' ' :: ·) hrest
    · exact ⟨0, by simp [hchar, spaces]⟩

theorem Cursor.rest_eq_of_accept? {α : Type} {table : Char → Option α} {c : Cursor}
    {reading : Reading α c.rest.length} (h : c.accept? table = some reading) :
    ∃ blanks char, c.rest = spaces blanks ++ char :: reading.next.rest ∧
      table char = some reading.value := by
  obtain ⟨blanks, hblanks⟩ := c.rest_eq_spaces
  obtain ⟨char, hrest, htable, -⟩ := accept?_eq_some h
  exact ⟨blanks, char, hrest ▸ hblanks, htable⟩

section Covers

variable {before middle after : List Char} {x y : Binary64}

/-- Spaces that are passed behind a text change nothing. -/
theorem Covers.skipSpaces {level : Level} {c : Cursor}
    (h : Covers d level depth before c.rest x) :
    Covers d level depth before c.skipSpaces.rest x := by
  obtain ⟨nested, text, blanks, hbefore, hallows, hderives⟩ := h
  obtain ⟨more, hmore⟩ := c.rest_eq_spaces
  refine ⟨nested, text, blanks + more, ?_, hallows, hderives⟩
  rw [hbefore, hmore, spaces_add]
  simp only [List.append_assoc]

/-- Two texts around an operator, where the grammar joins their levels. -/
theorem Covers.join {joined left right : Level} {c : Cursor} {z : Binary64} {char : Char}
    {blanks : Nat}
    (hjoin : ∀ {m n : Nat} {l r : List Char} (blanks : Nat), Derives left m l x →
      Derives right n r y → Derives joined (max m n) (l ++ spaces blanks ++ char :: r) z)
    (hleft : Covers d left depth before c.rest x)
    (hop : c.rest = spaces blanks ++ char :: middle)
    (hright : Covers d right depth middle after y) : Covers d joined depth before after z := by
  obtain ⟨m, l, lblanks, hbefore, hm, hl⟩ := hleft
  obtain ⟨n, r, rblanks, hmiddle, hn, hr⟩ := hright
  refine ⟨max m n, _, rblanks, ?_, Dialect.allows_max.mpr ⟨hm, hn⟩, hjoin (lblanks + blanks) hl hr⟩
  rw [hbefore, hop, hmiddle, spaces_add]
  simp only [List.append_assoc, List.cons_append]

theorem Covers.group {inner : List Char} {blanks blanks' : Nat}
    (hallows : d.allowsGroup depth = true) (hopen : before = spaces blanks ++ '(' :: inner)
    (hinside : Covers d .expression (depth + 1) inner middle x)
    (hclose : middle = spaces blanks' ++ ')' :: after) :
    Covers d .primary depth before after x := by
  obtain ⟨nested, text, behind, hinner, hnested, hderives⟩ := hinside
  refine ⟨nested + 1, _, 0, ?_, hnested.group hallows, hderives.group blanks (behind + blanks')⟩
  rw [hopen, hinner, hclose, spaces_add]
  simp only [List.append_assoc, List.cons_append, List.nil_append, spaces_zero]

theorem Covers.weaken {level level' : Level}
    (hlevel : ∀ {nested : Nat} {text : List Char}, Derives level nested text x →
      Derives level' nested text x)
    (h : Covers d level depth before after x) : Covers d level' depth before after x := by
  obtain ⟨nested, text, blanks, hbefore, hallows, hderives⟩ := h
  exact ⟨nested, text, blanks, hbefore, hallows, hlevel hderives⟩

end Covers

theorem SignChain.cons {chain : List Char} {minuses : Nat} {char : Char} {negative : Bool}
    (hsign : sign? char = some negative) (blanks : Nat) (hchain : SignChain chain minuses) :
    SignChain (spaces blanks ++ char :: chain) (minuses + negative.toNat) := by
  rcases sign?_cases hsign with ⟨rfl, rfl⟩ | ⟨rfl, rfl⟩
  · exact hchain.plus blanks
  · exact hchain.minus blanks

theorem odd_add_toNat (minuses : Nat) (negative : Bool) :
    decide ((minuses + negative.toNat) % 2 = 1) = (negative ^^ decide (minuses % 2 = 1)) := by
  cases negative with
  | false => simp
  | true =>
    have hparity : (minuses + 1) % 2 = 1 ↔ ¬ minuses % 2 = 1 := by omega
    simp only [Bool.toNat_true, hparity, decide_not, Bool.true_xor]

theorem signs_covers (negative : Bool) (c : Cursor) :
    ∃ chain minuses blanks, c.rest = chain ++ spaces blanks ++ (Expr.signs negative c).2.rest ∧
      SignChain chain minuses ∧
      (Expr.signs negative c).1 = (negative ^^ decide (minuses % 2 = 1)) := by
  fun_induction Expr.signs negative c with
  | case1 negative c sign haccept ih =>
    obtain ⟨chain, minuses, blanks, hrest, hchain, hnegative⟩ := ih
    obtain ⟨before, char, hbefore, hsign⟩ := Cursor.rest_eq_of_accept? haccept
    refine ⟨_, _, blanks, hbefore.trans ?_, hchain.cons hsign before, ?_⟩
    · rw [hrest]
      simp only [List.append_assoc, List.cons_append]
    · rw [hnegative, odd_add_toNat, Bool.xor_assoc]
  | case2 negative c =>
    obtain ⟨blanks, hrest⟩ := c.rest_eq_spaces
    exact ⟨[], 0, blanks, hrest, .nil, by simp⟩

theorem factor_covers {operand : Expr} {after : List Char} {c : Cursor}
    (h : Covers d .primary depth (Expr.signs false c).2.rest after operand.value) :
    Covers d .factor depth c.rest after
      (Expr.negateIf (Expr.signs false c).1 operand).value := by
  obtain ⟨chain, minuses, blanks, hrest, hchain, hnegative⟩ := signs_covers false c
  obtain ⟨nested, text, behind, hbefore, hallows, hderives⟩ := h
  refine ⟨nested, chain ++ (spaces blanks ++ text), behind, ?_, hallows, ?_⟩
  · rw [hrest, hbefore]
    simp only [List.append_assoc]
  · have hvalue := Derives.signs hchain (hderives.spaces_append blanks)
    rw [Expr.value_negateIf, hnegative, Bool.false_xor]
    simpa only [Binary64.negateIf, decide_eq_true_eq] using hvalue

/-- A numeral is a number of the grammar. -/
theorem derives_of_numeral {run : List Char} {decimal : Decimal}
    (h : Decimal.Numeral run decimal) : Derives .primary 0 run decimal.value := by
  rcases h.cases with ⟨hdigits, hall, rfl⟩ | ⟨whole, fraction, rfl, hwhole, hall, hfraction, rfl⟩
  · exact Derives.whole 0 hdigits hall
  · exact Derives.point 0 hwhole hall hfraction

theorem number_covers {c : Cursor} {decimal : Reading Decimal c.rest.length}
    (h : c.decimal = .ok decimal) :
    Covers d .primary depth c.rest decimal.next.rest decimal.value.value := by
  unfold Cursor.decimal at h
  split at h
  · next hdigit =>
    cases hrun : Decimal.ofChars? (c.takeWhile Decimal.isNumeralChar).1 with
    | none => simp [hrun] at h
    | some value =>
      simp only [hrun, Except.ok.injEq] at h
      subst h
      have hsplit := List.takeWhile_append_dropWhile (p := Decimal.isNumeralChar) (l := c.rest)
      refine ⟨0, (c.takeWhile Decimal.isNumeralChar).1, 0, ?_, ?_,
        derives_of_numeral ⟨?_, ?_, hrun⟩⟩
      · rw [spaces_zero, List.append_nil]
        exact hsplit.symm
      · intro k hk
        omega
      · obtain ⟨position, rest⟩ := c
        cases rest with
        | nil => simp [Cursor.current] at hdigit
        | cons char rest =>
          have hchar : char.isDigit = true := by simpa [Cursor.current] using hdigit
          simp [Cursor.takeWhile, Decimal.isNumeralChar_of_isDigit hchar, hchar]
      · exact List.all_eq_true.mp List.all_takeWhile
  · cases h

theorem Covers.spaces_append {c : Cursor} {after : List Char} {x : Binary64}
    (h : Covers d .primary depth c.skipSpaces.rest after x) :
    Covers d .primary depth c.rest after x := by
  obtain ⟨nested, text, behind, hbefore, hallows, hderives⟩ := h
  obtain ⟨blanks, hrest⟩ := c.rest_eq_spaces
  refine ⟨nested, spaces blanks ++ text, behind, ?_, hallows, hderives.spaces_append blanks⟩
  rw [hrest, hbefore]
  simp only [List.append_assoc]

theorem reader_covers (hstrict : d.requireClosing = true) :
    (∀ depth c, ∀ reading, Expr.expression d depth c = .ok reading →
      Covers d .expression depth c.rest reading.next.rest reading.value.value) ∧
    (∀ bound depth left c shorter, ∀ before, Covers d .expression depth before c.rest left.value →
      ∀ reading, @Expr.sum bound d depth left c shorter = .ok reading →
        Covers d .expression depth before reading.next.rest reading.value.value) ∧
    (∀ depth c, ∀ reading, Expr.term d depth c = .ok reading →
      Covers d .term depth c.rest reading.next.rest reading.value.value) ∧
    (∀ bound depth left c shorter, ∀ before, Covers d .term depth before c.rest left.value →
      ∀ reading, @Expr.product bound d depth left c shorter = .ok reading →
        Covers d .term depth before reading.next.rest reading.value.value) ∧
    (∀ depth c, ∀ reading, Expr.factor d depth c = .ok reading →
      Covers d .factor depth c.rest reading.next.rest reading.value.value) ∧
    ∀ depth c, ∀ reading, Expr.primary d depth c = .ok reading →
      Covers d .primary depth c.rest reading.next.rest reading.value.value := by
  apply Expr.expression.mutual_induct d
  case case1 =>
    intro depth c e hterm _ reading hread
    rw [Expr.expression, hterm] at hread
    cases hread
  case case2 =>
    intro depth c first hterm ihterm ihsum reading hread
    rw [Expr.expression, hterm] at hread
    exact ihsum c.rest ((ihterm first hterm).weaken .term) reading hread
  case case3 =>
    intro bound depth left c shorter haccept before hleft reading hread
    rw [Expr.sum, haccept] at hread
    cases hread
    exact hleft.skipSpaces
  case case4 =>
    intro bound depth left c shorter op haccept e hterm _ before _ reading hread
    rw [Expr.sum, haccept] at hread
    simp only [hterm] at hread
    cases hread
  case case5 =>
    intro bound depth left c shorter op haccept right hterm ihterm ihsum before hleft reading hread
    rw [Expr.sum, haccept] at hread
    simp only [hterm] at hread
    obtain ⟨blanks, char, hrest, hop⟩ := Cursor.rest_eq_of_accept? haccept
    refine ihsum before ?_ reading hread
    exact hleft.join (fun blanks => Derives.additive hop blanks) hrest (ihterm right hterm)
  case case6 =>
    intro depth c e hfactor _ reading hread
    rw [Expr.term, hfactor] at hread
    cases hread
  case case7 =>
    intro depth c first hfactor ihfactor ihproduct reading hread
    rw [Expr.term, hfactor] at hread
    exact ihproduct c.rest ((ihfactor first hfactor).weaken .factor) reading hread
  case case8 =>
    intro bound depth left c shorter haccept before hleft reading hread
    rw [Expr.product, haccept] at hread
    cases hread
    exact hleft.skipSpaces
  case case9 =>
    intro bound depth left c shorter op haccept e hfactor _ before _ reading hread
    rw [Expr.product, haccept] at hread
    simp only [hfactor] at hread
    cases hread
  case case10 =>
    intro bound depth left c shorter op haccept right hfactor ihfactor ihproduct before hleft
      reading hread
    rw [Expr.product, haccept] at hread
    simp only [hfactor] at hread
    obtain ⟨blanks, char, hrest, hop⟩ := Cursor.rest_eq_of_accept? haccept
    refine ihproduct before ?_ reading hread
    exact hleft.join (fun blanks => Derives.multiplicative hop blanks) hrest
      (ihfactor right hfactor)
  case case11 =>
    intro depth c e hprimary _ reading hread
    rw [Expr.factor, hprimary] at hread
    cases hread
  case case12 =>
    intro depth c operand hprimary ih reading hread
    rw [Expr.factor, hprimary] at hread
    cases hread
    exact factor_covers (ih operand hprimary)
  case case13 =>
    intro depth c opening haccept hallows e hinside _ reading hread
    rw [Expr.primary, haccept] at hread
    simp [hallows, hinside] at hread
  case case14 =>
    intro depth c opening haccept hallows inside hinside closing hclosing ih reading hread
    rw [Expr.primary, haccept] at hread
    simp only [hallows, if_true, hinside, hclosing, Except.ok.injEq] at hread
    subst hread
    obtain ⟨before, openChar, hopen, hopenChar⟩ := Cursor.rest_eq_of_accept? haccept
    obtain ⟨after, closeChar, hclose, hcloseChar⟩ := Cursor.rest_eq_of_accept? hclosing
    rw [Cursor.only_eq_some hopenChar] at hopen
    rw [Cursor.only_eq_some hcloseChar] at hclose
    exact (ih inside hinside).group hallows hopen hclose
  case case15 =>
    intro depth c opening haccept hallows inside hinside hclosing _ _ reading hread
    rw [Expr.primary, haccept] at hread
    simp [hallows, hinside, hclosing, hstrict] at hread
  case case16 =>
    intro depth c opening haccept hallows inside hinside hclosing hgenerous
    exact absurd hstrict hgenerous
  case case17 =>
    intro depth c opening haccept hallows reading hread
    rw [Expr.primary, haccept] at hread
    simp [hallows] at hread
  case case18 =>
    intro depth c haccept e hdecimal reading hread
    rw [Expr.primary, haccept] at hread
    simp [hdecimal] at hread
  case case19 =>
    intro depth c haccept decimal hdecimal reading hread
    rw [Expr.primary, haccept] at hread
    simp only [hdecimal, Except.ok.injEq] at hread
    subst hread
    exact (number_covers hdecimal).spaces_append

end DeskCalculator
