import DeskCalculator.Proofs.Policies
import DeskCalculator.Proofs.RuleCalls
import DeskCalculator.Proofs.ViablePrefix
import Mathlib.Data.Nat.Find

/-!
# Where the limit on groups is felt

The calculator allows so many groups inside one another and no more.  `evaluateUnlimited` is the
same calculator without that limit.  The two differ exactly if a parenthesis opens one group too
many (`OpensInside`) where an operand has to follow: there, and only there, the limit is
reported (`limit_felt_at_first_opensInside`).

In the machine the number of open groups is the height of a stack, and it can be
counted in the text.  Two machines whose dialects allow the same groups along a text do the same
on it (`Scan.run_eq_of_allowAlong`).
-/

namespace DeskCalculator

open Scan

/-- The value of a text where groups may be nested however deep. -/
def evaluateUnlimited (s : Settings) (text : String) : Except EvalError Binary64 :=
  conclude s.requireFinite (Expr.read ⟨s.requireClosing, none⟩ text)

/-- The place holds a parenthesis that opens a group inside exactly so many open ones. -/
def OpensInside (depth : Nat) (text : List Char) (place : Nat) : Prop :=
  text[place]? = some '(' ∧ (text.take place).count '(' = (text.take place).count ')' + depth

instance (depth : Nat) (text : List Char) (place : Nat) :
    Decidable (OpensInside depth text place) :=
  inferInstanceAs (Decidable (_ ∧ _))

/-! ### Two dialects along one text -/

namespace Scan

variable {d d' : Dialect} {s s' : Scan}

/-- The dialects agree on every group that the text may open. -/
def AllowAlong (d d' : Dialect) (s : Scan) (text : List Char) : Prop :=
  ∀ first rest mid, text = first ++ '(' :: rest → s.feed d first = some mid →
    d.allowsGroup mid.groups.length = d'.allowsGroup mid.groups.length

theorem AllowAlong.head {char : Char} {text : List Char} (h : AllowAlong d d' s (char :: text)) :
    s.next? d char = s.next? d' char :=
  next?_congr fun hchar => h [] text s (by rw [hchar, List.nil_append]) (feed_nil s)

theorem AllowAlong.tail {char : Char} {text : List Char} (h : AllowAlong d d' s (char :: text))
    (hnext : s.next? d char = some s') : AllowAlong d d' s' text := by
  intro first rest mid htext hfeed
  refine h (char :: first) rest mid (by rw [htext, List.cons_append]) ?_
  exact feed_cons_eq_some_iff.mpr ⟨s', hnext, hfeed⟩

theorem feed_eq_of_allowAlong {text : List Char} (h : AllowAlong d d' s text) :
    s.feed d text = s.feed d' text := by
  induction text generalizing s with
  | nil => rfl
  | cons char text ih =>
    rw [feed_cons, feed_cons, ← h.head]
    cases hnext : s.next? d char with
    | none => rfl
    | some next => exact ih (h.tail hnext)

theorem run_eq_of_allowAlong (hclosing : d.requireClosing = d'.requireClosing) {text : List Char}
    (h : AllowAlong d d' s text) (position : Nat) :
    s.run d position text = s.run d' position text := by
  induction text generalizing s position with
  | nil =>
    show s.finish d position = s.finish d' position
    cases s <;> simp only [finish, finishOperator, hclosing]
  | cons char text ih =>
    simp only [Scan.run, ← h.head]
    cases hnext : s.next? d char with
    | none => rfl
    | some next => exact ih (h.tail hnext) (position + 1)

/-! ### The height of the stack -/

theorem Step.length_groups_le {char : Char} {limit : Nat} (hlimit : d.groupLimit = some limit)
    (h : Step d s char s') (hs : s.groups.length ≤ limit) : s'.groups.length ≤ limit := by
  by_cases hchar : char = '('
  · subst hchar
    obtain ⟨groups, pending, rfl, rfl, hallows⟩ := h.cases_open
    simp only [Dialect.allowsGroup, hlimit, decide_eq_true_eq] at hallows
    exact hallows
  · have hcount : [char].count '(' = 0 := by simp [hchar]
    have hgroups := h.length_groups
    omega

theorem length_groups_le_of_feed {limit : Nat} (hlimit : d.groupLimit = some limit)
    {text : List Char} (h : s.feed d text = some s') (hs : s.groups.length ≤ limit) :
    s'.groups.length ≤ limit := by
  induction text generalizing s with
  | nil =>
    cases h
    exact hs
  | cons char text ih =>
    rcases feed_cons_eq_some_iff.mp h with ⟨next, hnext, hrest⟩
    exact ih hrest ((next?_eq_some_iff.mp hnext).length_groups_le hlimit hs)

/-- Before a group too many is opened, the limit is not felt. -/
theorem allowAlong_of_not_opensInside {limit : Nat} (hlimit : d.groupLimit = some limit)
    (hunlimited : d'.groupLimit = none) {text : List Char}
    (h : ∀ place < text.length, ¬ OpensInside limit text place) :
    AllowAlong d d' start text := by
  intro first rest mid htext hfeed
  have hle : mid.groups.length ≤ limit :=
    length_groups_le_of_feed hlimit hfeed (Nat.zero_le limit)
  have hne : mid.groups.length ≠ limit := by
    intro heq
    have htake : text.take first.length = first := by rw [htext, List.take_left]
    refine h first.length (by simp [htext]) ⟨by simp [htext], ?_⟩
    have hgroups := length_groups_of_feed_start hfeed
    rw [htake]
    omega
  have hlt : mid.groups.length < limit := Nat.lt_of_le_of_ne hle hne
  simp only [Dialect.allowsGroup, hlimit, hunlimited, hlt, decide_true]

/-! ### Errors at the limit -/

theorem reject_ne_unexpectedEnd (s : Scan) (position : Nat) (char : Char) (place : Nat) :
    s.reject position char ≠ .unexpectedEnd place := by
  cases s with
  | operand groups pending =>
    rw [reject]
    split <;> exact SyntaxError.noConfusion
  | number groups pending run =>
    rw [reject]
    split <;> exact SyntaxError.noConfusion
  | operator groups sum product => exact SyntaxError.noConfusion

/-- A text with a beginning that cannot be passed fails there, whatever follows, and in either
    dialect in the same way. -/
theorem run_append_of_feed_eq_none {first : List Char} (halong : AllowAlong d d' s first)
    (h : s.feed d first = none) (position : Nat) :
    ∃ e, (∀ place, e ≠ .unexpectedEnd place) ∧ ∀ rest,
      s.run d' position (first ++ rest) = .error e ∧
        s.run d position (first ++ rest) = .error e := by
  induction first generalizing s position with
  | nil => cases h
  | cons char first ih =>
    rw [feed_cons] at h
    simp only [List.cons_append, Scan.run, ← halong.head]
    cases hnext : s.next? d char with
    | none =>
      exact ⟨s.reject position char, reject_ne_unexpectedEnd s position char,
        fun _ => ⟨rfl, rfl⟩⟩
    | some next =>
      rw [hnext, Option.bind_some] at h
      exact ih (halong.tail hnext) h (position + 1)

theorem finish_ne_nestedTooDeep (s : Scan) (position place : Nat) :
    s.finish d position ≠ .error (.nestedTooDeep place) := by
  have hoperator : ∀ groups value,
      finishOperator d groups value position ≠ .error (.nestedTooDeep place) := by
    intro groups value h
    rw [finishOperator_eq] at h
    split at h <;> cases h
  intro h
  cases s with
  | operand groups pending => cases h
  | number groups pending run =>
    rw [finish] at h
    split at h
    · cases h
    · exact hoperator _ _ h
  | operator groups sum product => exact hoperator _ _ h

theorem reject_ne_nestedTooDeep (hunlimited : d.groupLimit = none) {char : Char}
    (hstuck : s.next? d char = none) (position place : Nat) :
    s.reject position char ≠ .nestedTooDeep place := by
  intro h
  cases s with
  | operand groups pending =>
    by_cases hchar : char = '('
    · have hallows : d.allowsGroup groups.length = true := by
        simp only [Dialect.allowsGroup, hunlimited]
      rw [hchar, next?_operand_open hallows] at hstuck
      cases hstuck
    · rw [reject, if_neg hchar] at h
      cases h
  | number groups pending run =>
    rw [reject] at h
    split at h <;> cases h
  | operator groups sum product => cases h

theorem run_ne_nestedTooDeep (hunlimited : d.groupLimit = none) {position : Nat}
    {text : List Char} (place : Nat) : s.run d position text ≠ .error (.nestedTooDeep place) := by
  intro h
  rcases run_eq_error h with ⟨first, char, rest, s', -, -, hstuck, he⟩ | ⟨s', -, hfinish⟩
  · exact reject_ne_nestedTooDeep hunlimited hstuck _ place he.symm
  · exact finish_ne_nestedTooDeep s' _ place hfinish

/-- At the first parenthesis that opens one group too many: either an operand has to follow
    there, and the limit is felt, or both machines have failed by then in the same way. -/
theorem run_at_limit {limit : Nat} (hlimit : d.groupLimit = some limit)
    {first : List Char} (halong : AllowAlong d d' start first)
    (hcount : first.count '(' = first.count ')' + limit) :
    (start.run d' 0 (first ++ ['(']) = .error (.unexpectedEnd (first.length + 1)) ∧
      ∀ rest, start.run d 0 (first ++ '(' :: rest) = .error (.nestedTooDeep first.length)) ∨
    ∃ e, (∀ place, e ≠ .unexpectedEnd place) ∧ ∀ rest,
      start.run d' 0 (first ++ '(' :: rest) = .error e ∧
        start.run d 0 (first ++ '(' :: rest) = .error e := by
  have hsame : start.feed d first = start.feed d' first := feed_eq_of_allowAlong halong
  cases hfeed : start.feed d first with
  | none =>
    obtain ⟨e, he, hrun⟩ := run_append_of_feed_eq_none halong hfeed 0
    exact .inr ⟨e, he, fun rest => hrun ('(' :: rest)⟩
  | some s =>
    have hgroups : s.groups.length = limit := by
      have hlength := length_groups_of_feed_start hfeed
      omega
    -- the parenthesis is passed only where an operand has to follow, so the limited machine is
    -- stuck here in any case
    have hfull : ¬ d.allowsGroup s.groups.length = true := by
      simp [Dialect.allowsGroup, hlimit, hgroups]
    have hstuck : s.next? d '(' = none := by
      refine Option.eq_none_iff_forall_ne_some.mpr fun s' hs' => hfull ?_
      obtain ⟨groups, pending, rfl, -, hallows⟩ := (next?_eq_some_iff.mp hs').cases_open
      exact hallows
    rw [hsame] at hfeed
    cases hopen : s.next? d' '(' with
    | none =>
      refine .inr ⟨_, reject_ne_unexpectedEnd s first.length '(', fun rest => ?_⟩
      exact ⟨run_reject hfeed hopen rest, run_reject (hsame ▸ hfeed) hstuck rest⟩
    | some s' =>
      left
      obtain ⟨groups, pending, rfl, rfl, -⟩ := (next?_eq_some_iff.mp hopen).cases_open
      constructor
      · rw [run_append hfeed, Nat.zero_add]
        simp only [Scan.run, hopen]
        rfl
      · intro rest
        exact run_reject (hsame ▸ hfeed) hstuck rest

end Scan

/-! ### The calculator and its limit -/

section Limit

variable (r : Settings) (text : String)

theorem evaluateWith_eq_unlimited
    (h : ∀ place, ¬ OpensInside maxGroupDepth text.toList place) :
    evaluateWith r text = evaluateUnlimited r text := by
  have halong : AllowAlong r.dialect ⟨r.requireClosing, none⟩ Scan.start text.toList :=
    allowAlong_of_not_opensInside rfl rfl fun place _ => h place
  rw [evaluateWith_eq_conclude, evaluateUnlimited, Scan.read_eq_run, Scan.read_eq_run,
    run_eq_of_allowAlong (by rfl) halong]

theorem evaluateUnlimited_ne_nestedTooDeep (place : Nat) :
    evaluateUnlimited r text ≠ .error (.invalid (.nestedTooDeep place)) := by
  rw [evaluateUnlimited, Scan.read_eq_run]
  intro h
  exact run_ne_nestedTooDeep rfl place (conclude_eq_invalid_iff.mp h)

/-- At the first place that opens one group too many, the limit is reported if an operand has to
    follow there; if not, the text is wrong at or before that place, limit or no limit. -/
theorem evaluateWith_at_limit {place : Nat} (hplace : OpensInside maxGroupDepth text.toList place)
    (hfirst : ∀ earlier < place, ¬ OpensInside maxGroupDepth text.toList earlier) :
    (evaluateUnlimited r (String.ofList (text.toList.take (place + 1)))
        = .error (.invalid (.unexpectedEnd (place + 1))) ∧
      evaluateWith r text = .error (.invalid (.nestedTooDeep place))) ∨
    ∃ e, (∀ stop, e ≠ .unexpectedEnd stop) ∧
      evaluateUnlimited r (String.ofList (text.toList.take (place + 1))) = .error (.invalid e) ∧
      evaluateUnlimited r text = .error (.invalid e) ∧
      evaluateWith r text = .error (.invalid e) := by
  obtain ⟨hopen, hcount⟩ := hplace
  obtain ⟨hlt, hchar⟩ := List.getElem?_eq_some_iff.mp hopen
  have hlength : (text.toList.take place).length = place := List.length_take_of_le (Nat.le_of_lt hlt)
  have htake : text.toList.take (place + 1) = text.toList.take place ++ ['('] := by
    rw [List.take_add_one, hopen, Option.toList_some]
  have htext : text.toList
      = text.toList.take place ++ '(' :: text.toList.drop (place + 1) := by
    rw [List.append_cons, ← htake, List.take_append_drop]
  have halong : AllowAlong r.dialect ⟨r.requireClosing, none⟩ Scan.start
      (text.toList.take place) := by
    refine allowAlong_of_not_opensInside rfl rfl fun earlier hearlier hopens => ?_
    rw [hlength] at hearlier
    refine hfirst earlier hearlier ⟨?_, ?_⟩
    · rw [← hopens.1, List.getElem?_take_of_lt hearlier]
    · have hinside := hopens.2
      rwa [List.take_take, Nat.min_eq_left (Nat.le_of_lt hearlier)] at hinside
  simp only [evaluateWith_eq_conclude, evaluateUnlimited, Scan.read_eq_run, String.toList_ofList,
    conclude_eq_invalid_iff]
  rw [htake]
  rcases run_at_limit (by rfl) halong hcount with
    ⟨hunlimited, hlimited⟩ | ⟨e, he, hsame⟩
  · rw [hlength] at hunlimited hlimited
    refine .inl ⟨hunlimited, ?_⟩
    rw [htext]
    exact hlimited _
  · refine .inr ⟨e, he, (hsame []).1, ?_⟩
    rw [htext]
    exact hsame _

/-- Where no rule is called with the limit as its depth, the limit makes no difference. -/
theorem evaluateWith_eq_unlimited_of_calls
    (h : ∀ call, Expr.ReadingCalls r.dialect text call → call.depth < maxGroupDepth) :
    evaluateWith r text = evaluateUnlimited r text := by
  have hread : Expr.read r.dialect text = Expr.read ⟨r.requireClosing, none⟩ text :=
    Expr.read_congr_of_calls (by rfl) fun call hcall => decide_eq_true (h call hcall)
  rw [evaluateWith_eq_conclude, evaluateUnlimited, hread]

theorem opensInside_of_nestedTooDeep {place : Nat}
    (h : evaluateWith r text = .error (.invalid (.nestedTooDeep place))) :
    OpensInside maxGroupDepth text.toList place := by
  by_cases hsome : ∃ place, OpensInside maxGroupDepth text.toList place
  · have hfound := Nat.find_spec hsome
    rcases evaluateWith_at_limit r text hfound (fun _ => Nat.find_min hsome) with
      ⟨-, hreported⟩ | ⟨e, -, -, hunlimited, hreported⟩
    · rw [hreported] at h
      cases h
      exact hfound
    · rw [hreported] at h
      rw [h] at hunlimited
      exact absurd hunlimited (evaluateUnlimited_ne_nestedTooDeep r text place)
  · rw [evaluateWith_eq_unlimited r text (not_exists.mp hsome)] at h
    exact absurd h (evaluateUnlimited_ne_nestedTooDeep r text place)

end Limit

/-- The limit is felt exactly where a parenthesis opens one group too many.  Without such a place
    the limit makes no difference.  At the first such place it is reported if without the limit
    the text could go on behind the parenthesis, and otherwise the error is the one that there is
    without the limit.  It is reported nowhere else.  No rule is ever called with a greater depth,
    and unless one is called with just that depth, the limit makes no difference either. -/
theorem limit_felt_at_first_opensInside (r : Settings) (text : String) :
    ((∀ place, ¬ OpensInside maxGroupDepth text.toList place) →
      evaluateWith r text = evaluateUnlimited r text) ∧
    (∀ place, OpensInside maxGroupDepth text.toList place →
      (∀ earlier < place, ¬ OpensInside maxGroupDepth text.toList earlier) →
      ((∃ stop, evaluateUnlimited r (String.ofList (text.toList.take (place + 1)))
          = .error (.invalid (.unexpectedEnd stop))) →
        evaluateWith r text = .error (.invalid (.nestedTooDeep place))) ∧
      ((¬ ∃ stop, evaluateUnlimited r (String.ofList (text.toList.take (place + 1)))
          = .error (.invalid (.unexpectedEnd stop))) →
        ∃ e, evaluateUnlimited r text = .error (.invalid e) ∧
          evaluateWith r text = .error (.invalid e))) ∧
    (∀ place, evaluateWith r text = .error (.invalid (.nestedTooDeep place)) →
      OpensInside maxGroupDepth text.toList place) ∧
    (∀ call, Expr.ReadingCalls r.dialect text call → call.depth ≤ maxGroupDepth) ∧
    ((∀ call, Expr.ReadingCalls r.dialect text call → call.depth < maxGroupDepth) →
      evaluateWith r text = evaluateUnlimited r text) := by
  refine ⟨evaluateWith_eq_unlimited r text, ?_, ?_, ?_, evaluateWith_eq_unlimited_of_calls r text⟩
  · intro place hplace hfirst
    rcases evaluateWith_at_limit r text hplace hfirst with
      ⟨hends, hlimited⟩ | ⟨e, he, hends, hunlimited, hlimited⟩
    · exact ⟨fun _ => hlimited, fun hnot => absurd ⟨_, hends⟩ hnot⟩
    · refine ⟨?_, fun _ => ⟨e, hunlimited, hlimited⟩⟩
      rintro ⟨stop, hstop⟩
      rw [hends] at hstop
      cases hstop
      exact absurd rfl (he stop)
  · intro place hlimited
    exact opensInside_of_nestedTooDeep r text hlimited
  · intro call hcall
    exact Expr.depth_le_of_readingCalls rfl hcall

end DeskCalculator
