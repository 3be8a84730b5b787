import DeskCalculator.Proofs.Numeral
import DeskCalculator.Proofs.OnePass

/-!
# The steps of the single pass

Everything the machine can do with one character, said once (`Scan.Step`): `next?` takes
a step exactly if there is one.  What holds of every pass is proved from the steps, by
one case for each.

A number is the only thing the machine keeps as text.  It is always what the pass has seen
last (`Scan.remembers_of_feed`), and it is the only thing that can go wrong without
being noticed at once: a number with two points is ruined, but its end is not in sight
yet.  Every other state can be completed (`Scan.exists_completion`).
-/

namespace DeskCalculator.Scan

variable {d : Dialect}

/-! ### All steps -/

/-- One step of the pass.  The last four are taken behind an operand; a number ends there. -/
inductive Step (d : Dialect) : Scan → Char → Scan → Prop where
  | blank (groups : List Pending) (pending : Pending) :
      Step d (operand groups pending) ' ' (operand groups pending)
  | sign {char : Char} {negative : Bool} (groups : List Pending) (pending : Pending) :
      sign? char = some negative →
      Step d (operand groups pending) char (operand groups (pending.sign negative))
  | opening {groups : List Pending} (pending : Pending) :
      d.allowsGroup groups.length = true →
      Step d (operand groups pending) '(' (operand (pending :: groups) .start)
  | digit {char : Char} (groups : List Pending) (pending : Pending) :
      char.isDigit = true → Step d (operand groups pending) char (number groups pending [char])
  | numeral {char : Char} (groups : List Pending) (pending : Pending) (run : List Char) :
      Decimal.isNumeralChar char = true →
      Step d (number groups pending run) char (number groups pending (run ++ [char]))
  | blankBehind {s : Scan} {groups : List Pending} {sum : Option (Expr × Operator)}
      {product : Expr} :
      s.settle = some (operator groups sum product) → Step d s ' ' (operator groups sum product)
  | additive {s : Scan} {groups : List Pending} {sum : Option (Expr × Operator)}
      {product : Expr} {char : Char} {op : Operator} :
      s.settle = some (operator groups sum product) → Operator.additive? char = some op →
      Step d s char (operand groups ⟨some (product.join sum, op), none, false⟩)
  | multiplicative {s : Scan} {groups : List Pending} {sum : Option (Expr × Operator)}
      {product : Expr} {char : Char} {op : Operator} :
      s.settle = some (operator groups sum product) → Operator.multiplicative? char = some op →
      Step d s char (operand groups ⟨sum, some (product, op), false⟩)
  | closing {s : Scan} {outer : Pending} {groups : List Pending}
      {sum : Option (Expr × Operator)} {product : Expr} :
      s.settle = some (operator (outer :: groups) sum product) →
      Step d s ')' (operator groups outer.sum (outer.term (product.join sum)))

theorem isNumeralChar_of_additive? {char : Char} {op : Operator}
    (hop : Operator.additive? char = some op) : Decimal.isNumeralChar char = false := by
  rcases Operator.additive?_cases hop with ⟨rfl, -⟩ | ⟨rfl, -⟩
  · rfl
  · rfl

theorem isNumeralChar_of_multiplicative? {char : Char} {op : Operator}
    (hop : Operator.multiplicative? char = some op) : Decimal.isNumeralChar char = false := by
  rcases Operator.multiplicative?_cases hop with ⟨rfl, -⟩ | ⟨rfl, -⟩
  · rfl
  · rfl

theorem Step.next? {s s' : Scan} {char : Char} (h : Step d s char s') :
    s.next? d char = some s' := by
  cases h with
  | blank groups pending => exact next?_operand_space groups pending
  | sign groups pending hsign => exact next?_operand_sign hsign groups pending
  | opening pending hallows => exact next?_operand_open hallows pending
  | digit groups pending hdigit => exact next?_operand_digit hdigit groups pending
  | numeral groups pending run hchar => exact next?_number_numeral hchar groups pending run
  | blankBehind hsettle => rw [next?_of_settle hsettle rfl, next?_operator_space]
  | additive hsettle hop =>
    rw [next?_of_settle hsettle (isNumeralChar_of_additive? hop), next?_operator_additive hop]
  | multiplicative hsettle hop =>
    rw [next?_of_settle hsettle (isNumeralChar_of_multiplicative? hop),
      next?_operator_multiplicative hop]
  | closing hsettle =>
    rw [next?_of_settle hsettle rfl, next?_operator_close]
    rfl

theorem step_of_nextOfOperand {groups : List Pending} {pending : Pending} {char : Char} {s' : Scan}
    (h : nextOfOperand d groups pending char = some s') :
    Step d (operand groups pending) char s' := by
  unfold nextOfOperand at h
  split at h
  · next hspace =>
    cases h
    rw [hspace]
    exact .blank groups pending
  · split at h
    · next hsign =>
      cases h
      exact .sign groups pending hsign
    · split at h
      · next hopen =>
        split at h
        · next hallows =>
          cases h
          rw [hopen]
          exact .opening pending hallows
        · cases h
      · split at h
        · next hdigit =>
          cases h
          exact .digit groups pending hdigit
        · cases h

theorem step_of_nextOfOperator {s s' : Scan} {groups : List Pending}
    {sum : Option (Expr × Operator)} {product : Expr} {char : Char}
    (hsettle : s.settle = some (operator groups sum product))
    (h : nextOfOperator groups sum product char = some s') : Step d s char s' := by
  unfold nextOfOperator at h
  split at h
  · next hspace =>
    cases h
    rw [hspace]
    exact .blankBehind hsettle
  · split at h
    · next hop =>
      cases h
      exact .additive hsettle hop
    · split at h
      · next hop =>
        cases h
        exact .multiplicative hsettle hop
      · split at h
        · next hclose =>
          cases groups with
          | nil => cases h
          | cons outer groups =>
            cases h
            rw [hclose]
            exact .closing hsettle
        · cases h

/-- The machine takes a step exactly if there is one to take. -/
theorem next?_eq_some_iff {s s' : Scan} {char : Char} :
    s.next? d char = some s' ↔ Step d s char s' := by
  refine ⟨fun h => ?_, Step.next?⟩
  cases s with
  | operand groups pending => exact step_of_nextOfOperand h
  | number groups pending run =>
    rw [Scan.next?] at h
    split at h
    · next hchar =>
      cases h
      exact .numeral groups pending run hchar
    · obtain ⟨decimal, hrun, hnext⟩ := Option.bind_eq_some_iff.mp h
      exact step_of_nextOfOperator (settle_number hrun groups pending) hnext
  | operator groups sum product => exact step_of_nextOfOperator rfl h

/-- A parenthesis is passed only where an operand has to follow and one more group may open. -/
theorem Step.cases_open {s s' : Scan} (h : Step d s '(' s') :
    ∃ groups pending, s = operand groups pending ∧ s' = operand (pending :: groups) .start ∧
      d.allowsGroup groups.length = true := by
  cases h with
  | sign groups pending hsign => simp [sign?] at hsign
  | @opening groups pending hallows => exact ⟨groups, pending, rfl, rfl, hallows⟩
  | digit groups pending hdigit => simp at hdigit
  | numeral groups pending run hchar => simp [Decimal.isNumeralChar] at hchar
  | additive hsettle hop => simp [Operator.additive?] at hop
  | multiplicative hsettle hop => simp [Operator.multiplicative?] at hop

/-! ### What a number remembers -/

/-- A number in progress is what the pass has seen last, from its first digit on. -/
def Remembers (d : Dialect) (origin : Scan) (text : List Char) : Scan → Prop
  | number groups pending run => ∃ before, text = before ++ run ∧
      origin.feed d before = some (operand groups pending) ∧
      run.head?.any Char.isDigit = true ∧ ∀ char ∈ run, Decimal.isNumeralChar char = true
  | _ => True

theorem remembers_step {origin s s' : Scan} {text : List Char} {char : Char}
    (hfeed : origin.feed d text = some s) (h : Remembers d origin text s)
    (hstep : Step d s char s') :
    Remembers d origin (text ++ [char]) s' := by
  cases hstep with
  | digit groups pending hdigit =>
    refine ⟨text, rfl, hfeed, by simpa using hdigit, fun other hother => ?_⟩
    rw [List.mem_singleton.mp hother]
    exact Decimal.isNumeralChar_of_isDigit hdigit
  | numeral groups pending run hchar =>
    obtain ⟨before, rfl, hbefore, hhead, hrun⟩ := h
    refine ⟨before, List.append_assoc .., hbefore, ?_, fun other hother => ?_⟩
    · cases run with
      | nil => cases hhead
      | cons first run => exact hhead
    · rcases List.mem_append.mp hother with hother | hother
      · exact hrun other hother
      · rw [List.mem_singleton.mp hother]
        exact hchar
  | _ => trivial

theorem remembers_run {origin s s' : Scan} {text : List Char} (hfeed : origin.feed d text = some s)
    (h : Remembers d origin text s) {more : List Char} (hmore : s.feed d more = some s') :
    Remembers d origin (text ++ more) s' := by
  induction more generalizing s text with
  | nil =>
    cases hmore
    rwa [List.append_nil]
  | cons char more ih =>
    rcases feed_cons_eq_some_iff.mp hmore with ⟨next, hnext, hrest⟩
    have hfeed' : origin.feed d (text ++ [char]) = some next := by
      rw [feed_append_of_eq_some hfeed]
      exact feed_cons_eq_some_iff.mpr ⟨next, hnext, feed_nil next⟩
    have hremembers := ih hfeed' (remembers_step hfeed h (next?_eq_some_iff.mp hnext)) hrest
    rwa [List.append_assoc, List.singleton_append] at hremembers

theorem remembers_of_feed {s : Scan} {text : List Char} (h : start.feed d text = some s) :
    Remembers d start text s :=
  remembers_run (feed_nil start) trivial h

/-! ### Completing a text -/

/-- A number that has two points already. -/
def ruined : Scan → Bool
  | number _ _ run => (Decimal.ofChars? run).isNone
  | _ => false

/-- Either an operand is still missing, or it is there. -/
theorem operand_or_settle_of_not_ruined {s : Scan} (h : s.ruined = false) :
    (∃ groups pending, s = operand groups pending) ∨
      ∃ groups sum product, s.settle = some (operator groups sum product) := by
  cases s with
  | operand groups pending => exact .inl ⟨groups, pending, rfl⟩
  | number groups pending run =>
    obtain ⟨decimal, hrun⟩ := Option.isSome_iff_exists.mp (Option.isNone_eq_false_iff.mp h)
    exact .inr ⟨_, _, _, settle_number hrun groups pending⟩
  | operator groups sum product => exact .inr ⟨_, _, _, rfl⟩

theorem eq_number_of_ruined {s : Scan} (h : s.ruined = true) :
    ∃ groups pending run, s = number groups pending run ∧ Decimal.ofChars? run = none := by
  cases s with
  | operand groups pending => cases h
  | number groups pending run => exact ⟨groups, pending, run, rfl, Option.isNone_iff_eq_none.mp h⟩
  | operator groups sum product => cases h

/-- Closing every open group takes a text that has come behind an operand out of all groups, to
    the value that it would have if it ended inside them. -/
theorem exists_feed_closers {s : Scan} {groups : List Pending} {sum : Option (Expr × Operator)}
    {product : Expr} (h : s.settle = some (operator groups sum product)) :
    ∃ s' sum' product', s.feed d (List.replicate groups.length ')') = some s' ∧
      s'.settle = some (operator [] sum' product') ∧
      product'.join sum' = closeAll (product.join sum) groups := by
  induction groups generalizing s sum product with
  | nil => exact ⟨s, sum, product, rfl, h, rfl⟩
  | cons outer groups ih =>
    have hclose := Step.closing (d := d) h
    obtain ⟨s', sum', product', hfeed, hsettle, hvalue⟩ :=
      ih (s := operator groups outer.sum (outer.term (product.join sum))) rfl
    refine ⟨s', sum', product', ?_, hsettle, hvalue⟩
    exact feed_cons_eq_some_iff.mpr ⟨_, hclose.next?, hfeed⟩

theorem exists_completion_of_settle {s : Scan} {groups : List Pending}
    {sum : Option (Expr × Operator)} {product : Expr}
    (h : s.settle = some (operator groups sum product)) :
    ∃ rest expr, ∀ position, s.run d position rest = .ok expr := by
  obtain ⟨s', sum', product', hfeed, hsettle, -⟩ := exists_feed_closers (d := d) h
  refine ⟨List.replicate groups.length ')', product'.join sum', fun position => ?_⟩
  rw [run_eq_finish hfeed, finish_of_settle_nil hsettle]

theorem exists_completion {s : Scan} (h : s.ruined = false) :
    ∃ rest expr, ∀ position, s.run d position rest = .ok expr := by
  rcases operand_or_settle_of_not_ruined h with
    ⟨groups, pending, rfl⟩ | ⟨groups, sum, product, hsettle⟩
  · -- a zero stands for the operand that is missing
    have hzero : (operand groups pending).feed d ['0'] = some (number groups pending ['0']) := rfl
    have hrun : Decimal.ofChars? ['0'] = some ⟨0, 0⟩ := rfl
    obtain ⟨rest, expr, hrest⟩ :=
      exists_completion_of_settle (d := d) (settle_number hrun groups pending)
    refine ⟨['0'] ++ rest, expr, fun position => ?_⟩
    rw [run_append hzero, hrest]
  · exact exists_completion_of_settle hsettle

end DeskCalculator.Scan
