import DeskCalculator.Proofs.OnePassSteps

/-!
# How deep groups are nested

The machine's stack holds as many groups as the text so far has opened and not closed
(`Scan.length_groups_of_feed`), so how deep a text is nested can be read off its parentheses.  A
pass that succeeds does not look below the groups it has opened itself: it runs alike on
top of any other groups, as long as the limit leaves room for them (`Scan.feed_under`).
-/

namespace DeskCalculator

/-- No place of the text lies inside more groups than that. -/
def NestedAtMost (limit : Nat) (text : List Char) : Prop :=
  ∀ n ≤ text.length, (text.take n).count '(' ≤ (text.take n).count ')' + limit

namespace Scan

variable {d : Dialect} {s s' : Scan}

/-! ### Counting parentheses -/

theorem count_parens_eq_zero {p : Char → Bool} (hopen : p '(' = false)
    (hclose : p ')' = false) {char : Char} (hchar : p char = true) :
    [char].count '(' = 0 ∧ [char].count ')' = 0 := by
  have hne : ∀ paren, p paren = false → [char].count paren = 0 := by
    intro paren hparen
    refine List.count_eq_zero.mpr fun hmem => ?_
    rw [List.mem_singleton.mp hmem, hchar] at hparen
    cases hparen
  exact ⟨hne '(' hopen, hne ')' hclose⟩

/-- Only parentheses move the stack. -/
theorem Step.length_groups {char : Char} (h : Step d s char s') :
    s'.groups.length + [char].count ')' = s.groups.length + [char].count '(' := by
  cases h with
  | blank groups pending => rfl
  | sign groups pending hsign =>
    obtain ⟨hopen, hclose⟩ := count_parens_eq_zero (p := fun c => (sign? c).isSome) rfl rfl
      (Option.isSome_of_eq_some hsign)
    rw [hopen, hclose]
    rfl
  | opening pending hallows => rfl
  | digit groups pending hdigit =>
    obtain ⟨hopen, hclose⟩ := count_parens_eq_zero rfl rfl hdigit
    rw [hopen, hclose]
    rfl
  | numeral groups pending run hchar =>
    obtain ⟨hopen, hclose⟩ := count_parens_eq_zero rfl rfl hchar
    rw [hopen, hclose]
    rfl
  | blankBehind hsettle =>
    rw [groups_of_settle hsettle]
    rfl
  | additive hsettle hop =>
    obtain ⟨hopen, hclose⟩ := count_parens_eq_zero (p := fun c => (Operator.additive? c).isSome)
      rfl rfl (Option.isSome_of_eq_some hop)
    rw [hopen, hclose, groups_of_settle hsettle]
    rfl
  | multiplicative hsettle hop =>
    obtain ⟨hopen, hclose⟩ :=
      count_parens_eq_zero (p := fun c => (Operator.multiplicative? c).isSome) rfl rfl
        (Option.isSome_of_eq_some hop)
    rw [hopen, hclose, groups_of_settle hsettle]
    rfl
  | closing hsettle =>
    rw [groups_of_settle hsettle]
    rfl

theorem length_groups_of_feed {text : List Char} (h : s.feed d text = some s') :
    s'.groups.length + text.count ')' = s.groups.length + text.count '(' := by
  induction text generalizing s with
  | nil =>
    cases h
    rfl
  | cons char text ih =>
    rcases feed_cons_eq_some_iff.mp h with ⟨next, hnext, hrest⟩
    have hstep := (next?_eq_some_iff.mp hnext).length_groups
    have hfeed := ih hrest
    rw [← List.singleton_append, List.count_append, List.count_append]
    omega

/-- From the start, the groups that are open are those that the text opens and does not close. -/
theorem length_groups_of_feed_start {text : List Char} (h : start.feed d text = some s) :
    s.groups.length + text.count ')' = text.count '(' := by
  have hstart : start.groups.length = 0 := rfl
  rw [length_groups_of_feed h, hstart, Nat.zero_add]

/-! ### On top of other groups -/

/-- The same state with other groups below its own. -/
def under (bottom : List Pending) : Scan → Scan
  | operand groups pending => operand (groups ++ bottom) pending
  | number groups pending run => number (groups ++ bottom) pending run
  | operator groups sum product => operator (groups ++ bottom) sum product

theorem settle_under (bottom : List Pending) {groups : List Pending}
    {sum : Option (Expr × Operator)} {product : Expr}
    (h : s.settle = some (operator groups sum product)) :
    (s.under bottom).settle = some (operator (groups ++ bottom) sum product) := by
  rcases settle_cases h with ⟨_, _, _, rfl, hs⟩ | ⟨_, pending, run, decimal, rfl, hrun, hs⟩
  · cases hs
    rfl
  · cases hs
    exact settle_number hrun _ pending

/-- A step that opens no group, or one more than are allowed below, does not look below. -/
theorem Step.under {char : Char} (bottom : List Pending) (h : Step d s char s')
    (hroom : char = '(' → d.allowsGroup (s.groups.length + bottom.length) = true) :
    Step d (s.under bottom) char (s'.under bottom) := by
  cases h with
  | blank groups pending => exact .blank _ pending
  | sign groups pending hsign => exact .sign _ pending hsign
  | @opening groups pending hallows =>
    refine .opening pending ?_
    rw [List.length_append]
    exact hroom rfl
  | digit groups pending hdigit => exact .digit _ pending hdigit
  | numeral groups pending run hchar => exact .numeral _ pending run hchar
  | blankBehind hsettle => exact .blankBehind (settle_under bottom hsettle)
  | additive hsettle hop => exact .additive (settle_under bottom hsettle) hop
  | multiplicative hsettle hop => exact .multiplicative (settle_under bottom hsettle) hop
  | closing hsettle => exact .closing (settle_under bottom hsettle)

theorem feed_under (bottom : List Pending) {text : List Char} (h : s.feed d text = some s')
    (hroom : ∀ first rest mid, text = first ++ '(' :: rest → s.feed d first = some mid →
      d.allowsGroup (mid.groups.length + bottom.length) = true) :
    (s.under bottom).feed d text = some (s'.under bottom) := by
  induction text generalizing s with
  | nil =>
    cases h
    rfl
  | cons char text ih =>
    rcases feed_cons_eq_some_iff.mp h with ⟨next, hnext, hrest⟩
    have hstep := (next?_eq_some_iff.mp hnext).under bottom fun hchar =>
      hroom [] text s (by rw [hchar, List.nil_append]) (feed_nil s)
    refine feed_cons_eq_some_iff.mpr ⟨_, hstep.next?, ih hrest ?_⟩
    intro first rest mid htext hfirst
    refine hroom (char :: first) rest mid (by rw [htext, List.cons_append]) ?_
    exact feed_cons_eq_some_iff.mpr ⟨next, hnext, hfirst⟩

/-- A text that is nested no deeper than the limit leaves room for passes in the groups below. -/
theorem feed_under_of_nestedAtMost (bottom : List Pending) {text : List Char} {limit : Nat}
    (h : start.feed d text = some s') (hnested : NestedAtMost limit text)
    (hlimit : ∀ depth < limit + bottom.length, d.allowsGroup depth = true) :
    (start.under bottom).feed d text = some (s'.under bottom) := by
  refine feed_under bottom h fun first rest mid htext hfirst => hlimit _ ?_
  have htake : text.take (first.length + 1) = first ++ ['('] := by
    rw [htext, List.append_cons]
    exact List.take_left' List.length_append
  have hlength : first.length + 1 ≤ text.length := by
    rw [htext, List.length_append, List.length_cons]
    omega
  have hinside := hnested (first.length + 1) hlength
  rw [htake, List.count_append, List.count_append] at hinside
  have hopen : ['('].count '(' = 1 := rfl
  have hclose : ['('].count ')' = 0 := rfl
  have hgroups := length_groups_of_feed_start hfirst
  omega

/-- What the machine passes on top of other groups leads where it leads without them. -/
theorem Step.under_unique {char : Char} {t : Scan} (bottom : List Pending) (h : Step d s char s')
    (hunder : Step d (s.under bottom) char t) : t = s'.under bottom := by
  by_cases hchar : char = '('
  · subst hchar
    obtain ⟨groups, pending, rfl, rfl, -⟩ := h.cases_open
    obtain ⟨groups', pending', hs, rfl, -⟩ := hunder.cases_open
    cases hs
    rfl
  · have hstep := h.under bottom fun hopen => absurd hopen hchar
    exact Option.some.inj (hunder.next?.symm.trans hstep.next?)

theorem feed_under_unique (bottom : List Pending) {text : List Char} {t : Scan}
    (h : s.feed d text = some s') (hunder : (s.under bottom).feed d text = some t) :
    t = s'.under bottom := by
  induction text generalizing s with
  | nil =>
    cases h
    cases hunder
    rfl
  | cons char text ih =>
    rcases feed_cons_eq_some_iff.mp h with ⟨next, hnext, hrest⟩
    rcases feed_cons_eq_some_iff.mp hunder with ⟨next', hnext', hrest'⟩
    obtain rfl := (next?_eq_some_iff.mp hnext).under_unique bottom (next?_eq_some_iff.mp hnext')
    exact ih hrest hrest'

section Group

variable {groups : List Pending} {pending : Pending} {text : List Char} {state : Scan}
  {sum : Option (Expr × Operator)} {product : Expr}

/-- A text in parentheses is one operand. -/
theorem feed_group (hallows : d.allowsGroup groups.length = true)
    (hinside : (start.under (pending :: groups)).feed d text
      = some (state.under (pending :: groups)))
    (hsettle : state.settle = some (operator [] sum product)) :
    (operand groups pending).feed d ('(' :: (text ++ [')']))
      = some (operator groups pending.sum (pending.term (product.join sum))) := by
  have hclose := Step.closing (d := d) (settle_under (pending :: groups) hsettle)
  refine feed_cons_eq_some_iff.mpr ⟨_, next?_operand_open hallows pending, ?_⟩
  refine (feed_append_of_eq_some hinside [')']).trans ?_
  exact feed_cons_eq_some_iff.mpr ⟨_, hclose.next?, feed_nil _⟩

theorem feed_group_unique {t : Scan} (hfeed : start.feed d text = some state)
    (hsettle : state.settle = some (operator [] sum product))
    (hgroup : (operand groups pending).feed d ('(' :: (text ++ [')'])) = some t) :
    d.allowsGroup groups.length = true ∧
      t = operator groups pending.sum (pending.term (product.join sum)) := by
  obtain ⟨inner, hopen, hinner⟩ := feed_cons_eq_some_iff.mp hgroup
  obtain ⟨groups', pending', hstate, rfl, hallows⟩ := (next?_eq_some_iff.mp hopen).cases_open
  cases hstate
  rw [feed_append] at hinner
  obtain ⟨last, hlast, -⟩ := Option.bind_eq_some_iff.mp hinner
  obtain rfl := feed_under_unique (pending :: groups) hfeed hlast
  rw [feed_group hallows hlast hsettle, Option.some.injEq] at hgroup
  exact ⟨hallows, hgroup.symm⟩

end Group

/-! ### Dialects that differ in what they close -/

/-- Dialects can only tell apart whether one more group may be opened. -/
theorem next?_congr {d' : Dialect} {char : Char}
    (hallows : char = '(' → d.allowsGroup s.groups.length = d'.allowsGroup s.groups.length) :
    s.next? d char = s.next? d' char := by
  cases s with
  | operand groups pending =>
    by_cases hopen : char = '('
    · have hsame : d.allowsGroup groups.length = d'.allowsGroup groups.length := hallows hopen
      simp only [next?, nextOfOperand, hsame]
    · simp only [next?, nextOfOperand, hopen, if_false]
  | number groups pending run => rfl
  | operator groups sum product => rfl

theorem allowsGroup_congr {d' : Dialect} (hlimit : d.groupLimit = d'.groupLimit) (depth : Nat) :
    d.allowsGroup depth = d'.allowsGroup depth := by
  simp only [Dialect.allowsGroup, hlimit]

/-- Whether open groups have to be closed matters at the end only. -/
theorem feed_congr {d' : Dialect} (hlimit : d.groupLimit = d'.groupLimit) (s : Scan)
    (text : List Char) : s.feed d text = s.feed d' text := by
  have hnext : next? d = next? d' := by
    funext s char
    exact next?_congr fun _ => allowsGroup_congr hlimit _
  rw [feed, feed, hnext]

end Scan

end DeskCalculator
