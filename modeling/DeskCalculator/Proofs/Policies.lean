import DeskCalculator.Evaluation
import DeskCalculator.Proofs.Nesting
import DeskCalculator.Proofs.OnePassReader

/-!
# What the policies change

The settings do not touch how a text is read, only what is made of its end.  A text that the
generous calculator refuses is refused under every setting with the same error
(`evaluateWith_of_evaluate`); any other is refused by a strict policy only for what that policy
is about.

An unclosed group is forgiven at the end of the text and nowhere else: the generous
calculator gives a text the value that the strict one gives it with every open group closed
behind its end (`evaluateWith_generous_iff_closed`).
-/

namespace DeskCalculator

open Scan

/-! ### Values and readings -/

/-- What a reading comes to, where a value may have to be finite. -/
def conclude (requireFinite : Bool) : Except SyntaxError Expr → Except EvalError Binary64
  | .error e => .error (.invalid e)
  | .ok expr =>
      if requireFinite && !expr.value.isFinite then .error (.notFinite expr.value)
      else .ok expr.value

theorem evaluateWith_eq_conclude (s : Settings) (text : String) :
    evaluateWith s text = conclude s.requireFinite (Expr.read s.dialect text) := by
  unfold evaluateWith
  cases Expr.read s.dialect text <;> rfl

/-- The calculation came to a value, be it one that the settings refuse. -/
inductive IsValue : Except EvalError Binary64 → Prop where
  | ok (x : Binary64) : IsValue (.ok x)
  | notFinite (x : Binary64) : IsValue (.error (.notFinite x))

/-- Only a text that can be read has a value. -/
theorem conclude_eq_iff {requireFinite : Bool} {reading : Except SyntaxError Expr}
    {outcome : Except EvalError Binary64} (houtcome : IsValue outcome) :
    conclude requireFinite reading = outcome ↔
      ∃ expr, reading = .ok expr ∧ conclude requireFinite (.ok expr) = outcome := by
  cases reading with
  | error e =>
    constructor
    · rintro rfl
      cases houtcome
    · rintro ⟨expr, hreading, -⟩
      cases hreading
  | ok expr => simp

theorem conclude_eq_invalid_iff {requireFinite : Bool} {reading : Except SyntaxError Expr}
    {e : SyntaxError} : conclude requireFinite reading = .error (.invalid e) ↔ reading = .error e := by
  cases reading with
  | error cause => simp [conclude]
  | ok expr =>
    rw [conclude]
    split <;> simp

/-! ### The end of a text -/

namespace Scan

variable {d d' : Dialect}

theorem finishOperator_eq (groups : List Pending) (value : Expr) (position : Nat) :
    finishOperator d groups value position
      = if d.requireClosing = true ∧ 0 < groups.length then .error (.unexpectedEnd position)
        else .ok (closeAll value groups) := by
  cases groups <;> simp [finishOperator]

theorem finish_of_generous (hgenerous : d.requireClosing = false) (s : Scan) (position : Nat) :
    s.finish d' position = match s.finish d position with
      | .error e => .error e
      | .ok expr =>
          if d'.requireClosing = true ∧ 0 < s.groups.length then .error (.unexpectedEnd position)
          else .ok expr := by
  cases s with
  | operand groups pending => rfl
  | number groups pending run =>
    cases hrun : Decimal.ofChars? run with
    | none => simp only [finish, hrun]
    | some decimal =>
      simp only [finish, hrun, finishOperator_eq, hgenerous, Bool.false_eq_true, false_and, if_false]
      rfl
  | operator groups sum product =>
    simp only [finish, finishOperator_eq, hgenerous, Bool.false_eq_true, false_and, if_false]
    rfl

/-- A strict pass goes like the generous one up to the end, and there it only counts the
    groups that are open. -/
theorem run_of_generous (hgenerous : d.requireClosing = false)
    (hlimit : d.groupLimit = d'.groupLimit) (s : Scan) (position : Nat) (text : List Char) :
    s.run d' position text = match s.run d position text with
      | .error e => .error e
      | .ok expr =>
          if d'.requireClosing = true ∧ text.count ')' < s.groups.length + text.count '(' then
            .error (.unexpectedEnd (position + text.length))
          else .ok expr := by
  induction text generalizing s position with
  | nil => exact finish_of_generous hgenerous s position
  | cons char text ih =>
    have hnext : s.next? d char = s.next? d' char :=
      next?_congr fun _ => allowsGroup_congr hlimit _
    simp only [Scan.run, hnext]
    cases hstep : s.next? d' char with
    | none => rfl
    | some next =>
      -- what is open at the end does not depend on where the text is cut
      have hgroups := (next?_eq_some_iff.mp hstep).length_groups
      have hopen : (text.count ')' < next.groups.length + text.count '(') ↔
          ((char :: text).count ')' < s.groups.length + (char :: text).count '(') := by
        rw [← List.singleton_append, List.count_append, List.count_append]
        omega
      simp only [ih next, hopen, List.length_cons, Nat.add_assoc, Nat.add_comm 1]

end Scan

/-- What every other policy makes of a text that the generous reader has read. -/
theorem read_of_generous (r : Settings) (text : String) :
    Expr.read r.dialect text = match Expr.read (Settings.dialect {}) text with
      | .error e => .error e
      | .ok expr =>
          if r.requireClosing = true ∧ text.toList.count ')' < text.toList.count '(' then
            .error (.unexpectedEnd text.length)
          else .ok expr := by
  have hrun := run_of_generous (show (Settings.dialect {}).requireClosing = false from rfl)
    (show _ = r.dialect.groupLimit from rfl) Scan.start 0 text.toList
  have hstart : Scan.start.groups.length = 0 := rfl
  rw [hstart, Nat.zero_add, Nat.zero_add, String.length_toList] at hrun
  rw [Scan.read_eq_run, Scan.read_eq_run]
  exact hrun

theorem count_close_le_of_read {d : Dialect} {text : String} {expr : Expr}
    (h : Expr.read d text = .ok expr) : text.toList.count ')' ≤ text.toList.count '(' := by
  rw [Scan.read_eq_run] at h
  obtain ⟨s, hfeed, -⟩ := exists_feed_of_run_eq_ok h
  have hgroups := length_groups_of_feed_start hfeed
  omega

section Policies

variable {text : String} (r : Settings)

theorem evaluateWith_eq_of_evaluate_eq_error {e : EvalError} (h : evaluate text = .error e) :
    evaluateWith r text = .error e := by
  rw [evaluate, evaluateWith_eq_conclude] at h
  rw [evaluateWith_eq_conclude, read_of_generous]
  cases hread : Expr.read (Settings.dialect {}) text with
  | error cause =>
    rw [hread] at h
    exact h
  | ok expr =>
    rw [hread] at h
    simp [conclude] at h

theorem evaluateWith_eq_of_evaluate_eq_ok {x : Binary64} (h : evaluate text = .ok x) :
    text.toList.count ')' ≤ text.toList.count '(' ∧
      evaluateWith r text =
        if r.requireClosing = true ∧ text.toList.count ')' < text.toList.count '(' then
          .error (.invalid (.unexpectedEnd text.length))
        else if r.requireFinite = true ∧ x.isFinite = false then .error (.notFinite x)
        else .ok x := by
  rw [evaluate, evaluateWith_eq_conclude] at h
  cases hread : Expr.read (Settings.dialect {}) text with
  | error cause =>
    rw [hread] at h
    cases h
  | ok expr =>
    rw [hread] at h
    obtain rfl : expr.value = x := by simpa [conclude] using h
    constructor
    · exact count_close_le_of_read hread
    · rw [evaluateWith_eq_conclude, read_of_generous, hread]
      simp only
      split
      · rfl
      · simp [conclude]

theorem evaluateWith_eq_ok_of_notFinite {x : Binary64}
    (h : evaluateWith r text = .error (.notFinite x)) :
    evaluateWith { r with requireFinite := false } text = .ok x := by
  rw [evaluateWith_eq_conclude] at h
  obtain ⟨expr, hread, hvalue⟩ := (conclude_eq_iff (.notFinite x)).mp h
  have hexpr : expr.value = x := by
    simp only [conclude] at hvalue
    split at hvalue
    · simpa using hvalue
    · cases hvalue
  have hdialect : Settings.dialect { r with requireFinite := false } = r.dialect := rfl
  rw [evaluateWith_eq_conclude, hdialect, hread]
  simp [conclude, hexpr]

end Policies

/-- The settings differ only in what their policies are about.  An error of the generous
    calculator is the same under every setting; a value is kept unless a group is open at the end
    where that is an error, or unless it is not finite where it has to be. -/
theorem evaluateWith_of_evaluate (text : String) :
    (∀ e, evaluate text = .error e → ∀ r : Settings, evaluateWith r text = .error e) ∧
    (∀ x, evaluate text = .ok x → text.toList.count ')' ≤ text.toList.count '(' ∧
      ∀ r : Settings, evaluateWith r text =
        if r.requireClosing = true ∧ text.toList.count ')' < text.toList.count '(' then
          .error (.invalid (.unexpectedEnd text.length))
        else if r.requireFinite = true ∧ x.isFinite = false then .error (.notFinite x)
        else .ok x) ∧
    ∀ (r : Settings) (x : Binary64), evaluateWith r text = .error (.notFinite x) →
      evaluateWith { r with requireFinite := false } text = .ok x := by
  refine ⟨?_, ?_, ?_⟩
  · intro e he r
    exact evaluateWith_eq_of_evaluate_eq_error r he
  · intro x hx
    constructor
    · exact (evaluateWith_eq_of_evaluate_eq_ok {} hx).1
    · intro r
      exact (evaluateWith_eq_of_evaluate_eq_ok r hx).2
  · intro r x hx
    exact evaluateWith_eq_ok_of_notFinite r hx

/-! ### Closing what is open -/

/-- The text with so many closing parentheses behind it. -/
def withClosers (text : String) (count : Nat) : String :=
  text ++ String.ofList (List.replicate count ')')

theorem toList_withClosers (text : String) (count : Nat) :
    (withClosers text count).toList = text.toList ++ List.replicate count ')' := by
  rw [withClosers, String.toList_append, String.toList_ofList]

namespace Scan

variable {d d' : Dialect} {s s' : Scan}

theorem Step.exists_settle_of_close (h : Step d s ')' s') :
    ∃ groups sum product, s.settle = some (operator groups sum product) := by
  cases h with
  | sign groups pending hsign => simp [sign?] at hsign
  | digit groups pending hdigit => simp at hdigit
  | numeral groups pending run hchar => simp [Decimal.isNumeralChar] at hchar
  | additive hsettle hop => exact ⟨_, _, _, hsettle⟩
  | multiplicative hsettle hop => exact ⟨_, _, _, hsettle⟩
  | closing hsettle => exact ⟨_, _, _, hsettle⟩

theorem exists_settle_of_feed_closers {count : Nat}
    (h : s.feed d (List.replicate count ')') = some s') {groups : List Pending}
    {sum : Option (Expr × Operator)} {product : Expr}
    (hsettle : s'.settle = some (operator groups sum product)) :
    ∃ groups sum product, s.settle = some (operator groups sum product) := by
  cases count with
  | zero =>
    cases h
    exact ⟨groups, sum, product, hsettle⟩
  | succ count =>
    rw [List.replicate_succ] at h
    rcases feed_cons_eq_some_iff.mp h with ⟨next, hnext, -⟩
    exact (next?_eq_some_iff.mp hnext).exists_settle_of_close

/-- The generous value of a text that ends inside groups is the strict value of the text with
    these groups closed. -/
theorem exists_run_closers (hgenerous : d.requireClosing = false)
    (hlimit : d.groupLimit = d'.groupLimit) {text : List Char} {expr : Expr}
    (h : start.run d 0 text = .ok expr) :
    ∃ count, start.run d' 0 (text ++ List.replicate count ')') = .ok expr := by
  obtain ⟨s, hfeed, hfinish⟩ := exists_feed_of_run_eq_ok h
  obtain ⟨groups, sum, product, hsettle⟩ := exists_settle_of_finish_eq_ok hfinish
  rw [finish_of_settle hsettle, finish, finishOperator_eq, hgenerous] at hfinish
  obtain rfl : closeAll (product.join sum) groups = expr := by simpa using hfinish
  rw [feed_congr hlimit] at hfeed
  obtain ⟨s', sum', product', hclosers, hsettle', hvalue⟩ := exists_feed_closers (d := d') hsettle
  refine ⟨groups.length, ?_⟩
  rw [run_append hfeed, run_eq_finish hclosers, finish_of_settle_nil hsettle', hvalue]

/-- A text that is read strictly once it is closed is read generously as it is, and it has been
    closed exactly as often as it has groups open. -/
theorem run_of_run_closers (hgenerous : d.requireClosing = false)
    (hstrict : d'.requireClosing = true) (hlimit : d.groupLimit = d'.groupLimit)
    {text : List Char} {count : Nat} {expr : Expr}
    (h : start.run d' 0 (text ++ List.replicate count ')') = .ok expr) :
    start.run d 0 text = .ok expr ∧ text.count '(' = text.count ')' + count := by
  obtain ⟨last, hfeed, hfinish⟩ := exists_feed_of_run_eq_ok h
  obtain ⟨sum', product', hlast, rfl⟩ := settle_of_finish_eq_ok hstrict hfinish
  rw [feed_append] at hfeed
  obtain ⟨s, htext, hclosers⟩ := Option.bind_eq_some_iff.mp hfeed
  obtain ⟨groups, sum, product, hsettle⟩ := exists_settle_of_feed_closers hclosers hlast
  have hgroups : groups.length = count := by
    have hlength := length_groups_of_feed hclosers
    rw [groups_of_settle hlast, groups_of_settle hsettle, List.count_replicate_self,
      List.count_replicate] at hlength
    simpa [Scan.groups] using hlength.symm
  -- closing is deterministic, so the last state is the one that closing leads to
  obtain ⟨last', sum'', product'', hclosers', hlast', hvalue⟩ := exists_feed_closers (d := d') hsettle
  rw [hgroups, hclosers] at hclosers'
  cases hclosers'
  rw [hlast] at hlast'
  cases hlast'
  constructor
  · rw [← feed_congr hlimit] at htext
    rw [run_eq_finish htext, finish_of_settle hsettle, finish, finishOperator_eq, hgenerous, hvalue]
    simp
  · have hlength := length_groups_of_feed_start htext
    rw [groups_of_settle hsettle, Scan.groups, hgroups] at hlength
    omega

end Scan

section Closers

variable {requireFinite : Bool} {text : String}

theorem evaluateWith_generous_eq_iff {outcome : Except EvalError Binary64}
    (houtcome : IsValue outcome) :
    evaluateWith ⟨false, requireFinite⟩ text = outcome ↔
      ∃ count, evaluateWith ⟨true, requireFinite⟩ (withClosers text count) = outcome := by
  simp only [evaluateWith_eq_conclude, Scan.read_eq_run, toList_withClosers]
  constructor
  · intro h
    obtain ⟨expr, hexpr, hvalue⟩ := (conclude_eq_iff houtcome).mp h
    have hclosed : ∃ count, Scan.start.run (Settings.dialect ⟨true, requireFinite⟩) 0
        (text.toList ++ List.replicate count ')') = .ok expr :=
      exists_run_closers (by rfl) (by rfl) hexpr
    obtain ⟨count, hcount⟩ := hclosed
    exact ⟨count, (conclude_eq_iff houtcome).mpr ⟨expr, hcount, hvalue⟩⟩
  · rintro ⟨count, h⟩
    obtain ⟨expr, hexpr, hvalue⟩ := (conclude_eq_iff houtcome).mp h
    have hopen := run_of_run_closers (d := Settings.dialect ⟨false, requireFinite⟩)
      (by rfl) (by rfl) (by rfl) hexpr
    exact (conclude_eq_iff houtcome).mpr ⟨expr, hopen.1, hvalue⟩

theorem count_open_of_isValue_closers {count : Nat}
    (h : IsValue (evaluateWith ⟨true, requireFinite⟩ (withClosers text count))) :
    text.toList.count '(' = text.toList.count ')' + count := by
  rw [evaluateWith_eq_conclude, Scan.read_eq_run, toList_withClosers] at h
  obtain ⟨expr, hexpr, -⟩ := (conclude_eq_iff h).mp rfl
  exact (run_of_run_closers (d := Settings.dialect {}) (by rfl) (by rfl) (by rfl) hexpr).2

end Closers

/-- A missing parenthesis is forgiven at the end of the text only: the generous calculator gives
    a text the value that the strict one gives it with every open group closed, and
    no other number of closing parentheses will do. -/
theorem evaluateWith_generous_iff_closed (requireFinite : Bool) (text : String) (x : Binary64) :
    (evaluateWith ⟨false, requireFinite⟩ text = .ok x ↔
      ∃ count, evaluateWith ⟨true, requireFinite⟩ (withClosers text count) = .ok x) ∧
    (evaluateWith ⟨false, requireFinite⟩ text = .error (.notFinite x) ↔
      ∃ count, evaluateWith ⟨true, requireFinite⟩ (withClosers text count)
        = .error (.notFinite x)) ∧
    ∀ count, IsValue (evaluateWith ⟨true, requireFinite⟩ (withClosers text count)) →
      text.toList.count '(' = text.toList.count ')' + count := by
  refine ⟨?_, ?_, ?_⟩
  · exact evaluateWith_generous_eq_iff (.ok x)
  · exact evaluateWith_generous_eq_iff (.notFinite x)
  · intro count hvalue
    exact count_open_of_isValue_closers hvalue

end DeskCalculator
