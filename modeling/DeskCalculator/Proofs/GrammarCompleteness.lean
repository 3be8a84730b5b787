import DeskCalculator.Evaluation
import DeskCalculator.Proofs.GrammarSoundness
import DeskCalculator.Proofs.OnePassSteps

/-!
# What is in the language is read, with its value

The other direction goes through the single pass.  A text that the grammar derives takes
the machine across one operand, term or expression, whatever groups are open around it
(`Derives.passes`); nothing has to be known of the text behind it, because the machine
looks at one character at a time.  Together with soundness this makes the language
exactly what the strict calculator accepts, and its values unambiguous
(`evaluateWith_eq_ok_iff_derivesText`).
-/

namespace DeskCalculator

open Scan

variable {d : Dialect}

/-! ### Crossing a part of a text -/

/-- The text takes the pass from one place to a place behind an operand. -/
def Crosses (d : Dialect) (s : Scan) (text : List Char) (target : Scan) : Prop :=
  ∃ next, s.feed d text = some next ∧ next.settle = some target

theorem Crosses.prepend {s s' target : Scan} {first second : List Char}
    (hfirst : s.feed d first = some s') (h : Crosses d s' second target) :
    Crosses d s (first ++ second) target := by
  obtain ⟨next, hfeed, hsettle⟩ := h
  exact ⟨next, (feed_append_of_eq_some hfirst second).trans hfeed, hsettle⟩

theorem Crosses.symbol {s middle next target : Scan} {left right : List Char} {char : Char}
    (hleft : Crosses d s left middle) (hchar : Decimal.isNumeralChar char = false)
    (hnext : middle.next? d char = some next) (blanks : Nat)
    (hright : Crosses d next right target) :
    Crosses d s (left ++ spaces blanks ++ char :: right) target := by
  obtain ⟨s', hfeed, hsettle⟩ := hleft
  obtain ⟨s'', hfeed', hsettle'⟩ := hright
  refine ⟨s'', ?_, hsettle'⟩
  rw [List.append_assoc, feed_append_of_eq_some hfeed]
  rw [spaces, feed_spaces_symbol hsettle hchar, hnext, Option.bind_some, hfeed']

/-- A chain of signs folds to at most one. -/
theorem SignChain.feed_eq {chain : List Char} {minuses : Nat} (h : SignChain chain minuses)
    (groups : List Pending) (pending : Pending) :
    (operand groups pending).feed d chain
      = some (operand groups (pending.sign (decide (minuses % 2 = 1)))) := by
  induction h generalizing pending with
  | nil => simp [Pending.sign]
  | @plus chain minuses blanks hchain ih =>
    rw [spaces, feed_append_of_eq_some (feed_spaces (next?_operand_space _ _) blanks), feed_cons,
      next?_operand_sign rfl, Option.bind_some, ih]
    simp [Pending.sign]
  | @minus chain minuses blanks hchain ih =>
    rw [spaces, feed_append_of_eq_some (feed_spaces (next?_operand_space _ _) blanks), feed_cons,
      next?_operand_sign rfl, Option.bind_some, ih]
    have hodd := odd_add_toNat minuses true
    simp only [Bool.toNat_true] at hodd
    simp [Pending.sign, hodd]

/-! ### Derivations -/

/-- What a text of a level does to the pass, inside any groups that allow its nesting. -/
def Level.Passes (d : Dialect) : Level → Nat → List Char → Binary64 → Prop
  | expression, nested, text, x => ∀ groups : List Pending, d.Allows groups.length nested →
      ∃ (sum : Option (Expr × Operator)) (product : Expr),
        Crosses d (operand groups .start) text (operator groups sum product) ∧
          (product.join sum).value = x
  | term, nested, text, x => ∀ (groups : List Pending) (sum : Option (Expr × Operator)),
      d.Allows groups.length nested →
      ∃ product : Expr,
        Crosses d (operand groups ⟨sum, none, false⟩) text (operator groups sum product) ∧
          product.value = x
  | factor, nested, text, x => ∀ (groups : List Pending) (sum product : Option (Expr × Operator)),
      d.Allows groups.length nested →
      ∃ tree : Expr,
        Crosses d (operand groups ⟨sum, product, false⟩) text
          (operator groups sum (tree.join product)) ∧
          tree.value = x
  | primary, nested, text, x => ∀ (groups : List Pending) (pending : Pending),
      d.Allows groups.length nested →
      ∃ tree : Expr,
        Crosses d (operand groups pending) text
          (operator groups pending.sum (pending.term tree)) ∧
          tree.value = x

section Passes

variable {m n nested : Nat} {left right text : List Char} {x y : Binary64} {char : Char}
  {op : Operator}

theorem passes_additive (hop : Operator.additive? char = some op) (blanks : Nat)
    (hleft : Level.Passes d .expression m left x) (hright : Level.Passes d .term n right y) :
    Level.Passes d .expression (max m n) (left ++ spaces blanks ++ char :: right)
      (op.apply x y) := by
  intro groups hallows
  obtain ⟨sum, product, hcross, rfl⟩ := hleft groups (Dialect.allows_max.mp hallows).1
  obtain ⟨product', hcross', rfl⟩ :=
    hright groups (some (product.join sum, op)) (Dialect.allows_max.mp hallows).2
  exact ⟨some (product.join sum, op), product',
    hcross.symbol (isNumeralChar_of_additive? hop)
      (next?_operator_additive hop groups sum product) blanks hcross', rfl⟩

theorem passes_multiplicative (hop : Operator.multiplicative? char = some op) (blanks : Nat)
    (hleft : Level.Passes d .term m left x) (hright : Level.Passes d .factor n right y) :
    Level.Passes d .term (max m n) (left ++ spaces blanks ++ char :: right) (op.apply x y) := by
  intro groups sum hallows
  obtain ⟨product, hcross, rfl⟩ := hleft groups sum (Dialect.allows_max.mp hallows).1
  obtain ⟨tree, hcross', rfl⟩ :=
    hright groups sum (some (product, op)) (Dialect.allows_max.mp hallows).2
  exact ⟨tree.join (some (product, op)),
    hcross.symbol (isNumeralChar_of_multiplicative? hop)
      (next?_operator_multiplicative hop groups sum product) blanks hcross', rfl⟩

theorem passes_signs {chain : List Char} {minuses : Nat} (hchain : SignChain chain minuses)
    (h : Level.Passes d .primary nested text x) :
    Level.Passes d .factor nested (chain ++ text) (if minuses % 2 = 1 then -x else x) := by
  intro groups sum product hallows
  obtain ⟨tree, hcross, rfl⟩ := h groups ⟨sum, product, decide (minuses % 2 = 1)⟩ hallows
  refine ⟨.negateIf (decide (minuses % 2 = 1)) tree, ?_, ?_⟩
  · have hsigns := hchain.feed_eq (d := d) groups ⟨sum, product, false⟩
    rw [Pending.sign, Bool.false_xor] at hsigns
    exact hcross.prepend hsigns
  · simp only [Expr.value_negateIf, Binary64.negateIf, decide_eq_true_eq]

/-- A group puts what waits for it on the stack, and takes it back when it closes. -/
theorem passes_group (before after : Nat) (h : Level.Passes d .expression nested text x) :
    Level.Passes d .primary (nested + 1)
      (spaces before ++ '(' :: text ++ spaces after ++ [')']) x := by
  intro groups pending hallows
  have hopen : d.allowsGroup groups.length = true := hallows 0 (Nat.succ_pos nested)
  have hinside : d.Allows (pending :: groups).length nested := fun k hk => by
    have := hallows (k + 1) (Nat.succ_lt_succ hk)
    rwa [Nat.add_comm k, ← Nat.add_assoc] at this
  obtain ⟨sum, product, hcross, rfl⟩ := h (pending :: groups) hinside
  have hgroup : (operand groups pending).feed d (spaces before ++ ['('])
      = some (operand (pending :: groups) .start) := by
    rw [spaces, feed_append_of_eq_some (feed_spaces (next?_operand_space _ _) before), feed_cons,
      next?_operand_open hopen, Option.bind_some, feed_nil]
  have hclosed : Crosses d (operand (pending :: groups) .start) (text ++ spaces after ++ [')'])
      (operator groups pending.sum (pending.term (product.join sum))) :=
    hcross.symbol rfl (next?_operator_close (pending :: groups) sum product) after ⟨_, rfl, rfl⟩
  refine ⟨product.join sum, ?_, rfl⟩
  have hcrossed := hclosed.prepend hgroup
  simpa only [List.append_assoc, List.cons_append, List.nil_append] using hcrossed

theorem passes_number {run : List Char} {decimal : Decimal} (blanks : Nat)
    (h : Decimal.Numeral run decimal) :
    Level.Passes d .primary 0 (spaces blanks ++ run) decimal.value := by
  intro groups pending _
  refine ⟨.number decimal, ?_, rfl⟩
  refine Crosses.prepend (feed_spaces (next?_operand_space _ _) blanks) ?_
  exact ⟨_, feed_numeral h.head h.chars groups pending, settle_number h.reads groups pending⟩

end Passes

theorem Derives.passes {level : Level} {nested : Nat} {text : List Char} {x : Binary64}
    (h : Derives level nested text x) : level.Passes d nested text x := by
  induction h with
  | term _ ih =>
    intro groups hallows
    obtain ⟨product, hcross, hvalue⟩ := ih groups none hallows
    exact ⟨none, product, hcross, hvalue⟩
  | add blanks _ _ ihleft ihright =>
    have hop : Operator.additive? '+' = some .add := rfl
    exact passes_additive hop blanks ihleft ihright
  | sub blanks _ _ ihleft ihright =>
    have hop : Operator.additive? '-' = some .sub := rfl
    exact passes_additive hop blanks ihleft ihright
  | factor _ ih =>
    intro groups sum hallows
    exact ih groups sum none hallows
  | mul blanks _ _ ihleft ihright =>
    have hop : Operator.multiplicative? '*' = some .mul := rfl
    exact passes_multiplicative hop blanks ihleft ihright
  | div blanks _ _ ihleft ihright =>
    have hop : Operator.multiplicative? '/' = some .div := rfl
    exact passes_multiplicative hop blanks ihleft ihright
  | signs hchain _ ih => exact passes_signs hchain ih
  | group before after _ ih => exact passes_group before after ih
  | whole blanks hdigits hall => exact passes_number blanks (Decimal.numeral_whole hdigits hall)
  | point blanks hdigits hall hfraction =>
    rw [List.append_assoc]
    exact passes_number blanks (Decimal.numeral_point hdigits hall hfraction)

/-! ### Whole texts -/

theorem settle_feed_spaces {s s' : Scan} (h : s.settle = some s') (blanks : Nat) :
    ∃ next, s.feed d (spaces blanks) = some next ∧ next.settle = some s' := by
  cases blanks with
  | zero => exact ⟨s, rfl, h⟩
  | succ blanks =>
    obtain ⟨groups, sum, product, rfl⟩ := settle_eq_operator h
    exact ⟨_, feed_spaces_of_settle h blanks, rfl⟩

/-- A text of the language is read, if its groups may be nested so deep. -/
theorem DerivesText.read {depth : Nat} {text : String} {x : Binary64}
    (h : DerivesText depth text.toList x) (hallows : d.Allows 0 depth) :
    ∃ expr, Expr.read d text = .ok expr ∧ expr.value = x := by
  obtain ⟨expression, blanks, htext, hderives⟩ := h
  obtain ⟨sum, product, ⟨next, hfeed, hsettle⟩, hvalue⟩ := hderives.passes (d := d) [] hallows
  obtain ⟨last, hspaces, hlast⟩ := settle_feed_spaces (d := d) hsettle blanks
  refine ⟨product.join sum, ?_, hvalue⟩
  have htextfeed : Scan.start.feed d text.toList = some last := by
    rw [htext, Scan.start, feed_append_of_eq_some hfeed, hspaces]
  rw [Scan.read_eq_run, run_eq_finish htextfeed, finish_of_settle_nil hlast]

/-- A text that is read where every group has to be closed is in the language. -/
theorem Expr.derivesText_of_read {text : String} {expr : Expr} (hstrict : d.requireClosing = true)
    (h : Expr.read d text = .ok expr) :
    ∃ depth, d.Allows 0 depth ∧ DerivesText depth text.toList expr.value := by
  unfold Expr.read at h
  cases hread : Expr.expression d 0 (Cursor.ofText text) with
  | error e => simp [hread] at h
  | ok reading =>
    cases hfinish : reading.next.finish with
    | error e => simp [hread, hfinish] at h
    | ok _ =>
      simp only [hread, hfinish, Except.ok.injEq] at h
      subst h
      obtain ⟨depth, text', blanks, htext, hallows, hderives⟩ :=
        (reader_covers hstrict).1 0 (Cursor.ofText text) reading hread
      obtain ⟨more, hmore⟩ := reading.next.rest_eq_spaces
      have hend : reading.next.skipSpaces.rest = [] := by
        unfold Cursor.finish at hfinish
        split at hfinish
        · next hatEnd => exact List.isEmpty_iff.mp hatEnd
        · cases hfinish
      refine ⟨depth, hallows, text', blanks + more, ?_, hderives⟩
      rw [hend, List.append_nil] at hmore
      rw [hmore] at htext
      rw [spaces_add, ← List.append_assoc]
      exact htext

theorem allows_dialect_iff {s : Settings} {depth : Nat} :
    s.dialect.Allows 0 depth ↔ depth ≤ maxGroupDepth := by
  constructor
  · intro h
    refine Nat.le_of_not_lt fun hdepth => ?_
    have hlimit := h maxGroupDepth (by omega)
    simp [Dialect.allowsGroup, Settings.dialect] at hlimit
  · intro h k hk
    have hlimit : k < maxGroupDepth := by omega
    simpa [Dialect.allowsGroup, Settings.dialect] using hlimit

/-- A text has one value, however it is derived. -/
theorem DerivesText.value_unique {m n : Nat} {text : List Char} {x y : Binary64}
    (hx : DerivesText m text x) (hy : DerivesText n text y) : x = y := by
  let unlimited : Dialect := ⟨true, none⟩
  have hallows : ∀ depth, unlimited.Allows 0 depth := fun _ _ _ => rfl
  rw [← String.toList_ofList (l := text)] at hx hy
  obtain ⟨expr, hread, rfl⟩ := hx.read (hallows m)
  obtain ⟨expr', hread', rfl⟩ := hy.read (hallows n)
  rw [hread, Except.ok.injEq] at hread'
  rw [hread']

theorem evaluateWith_eq_ok_of_generous {s : Settings} (hgenerous : s.requireFinite = false)
    {text : String} {x : Binary64} :
    evaluateWith s text = .ok x ↔ ∃ expr, Expr.read s.dialect text = .ok expr ∧ expr.value = x := by
  unfold evaluateWith
  cases Expr.read s.dialect text with
  | error e => simp
  | ok expr => simp [hgenerous]

/-- The strict calculator accepts exactly the language, with groups nested no deeper than
    the limit, and gives the value of the derivation, which is unique. -/
theorem evaluateWith_eq_ok_iff_derivesText :
    (∀ (text : String) (x : Binary64), evaluateWith { requireClosing := true } text = .ok x ↔
      ∃ depth ≤ maxGroupDepth, DerivesText depth text.toList x) ∧
    ∀ (m n : Nat) (text : List Char) (x y : Binary64), DerivesText m text x →
      DerivesText n text y → x = y := by
  refine ⟨fun text x => ?_, fun m n text x y => DerivesText.value_unique⟩
  rw [evaluateWith_eq_ok_of_generous rfl]
  constructor
  · rintro ⟨expr, hread, rfl⟩
    obtain ⟨depth, hallows, hderives⟩ := Expr.derivesText_of_read rfl hread
    exact ⟨depth, allows_dialect_iff.mp hallows, hderives⟩
  · rintro ⟨depth, hdepth, hderives⟩
    exact hderives.read (allows_dialect_iff.mpr hdepth)

end DeskCalculator
