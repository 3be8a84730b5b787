import DeskCalculator.CommandLine

/-!
# Options come first

A call names its options in any order, each strict one at most once, and then its expressions:
after `--`, or at once if the first of them cannot be taken for an option.  What is asked for is
then to calculate these expressions under these settings (`ofArguments_of_callsFor`).  Whatever
stands behind the first expression is an expression, whatever it looks like.

The arguments are taken off one by one.  What is kept is that the settings so far and the strict
options still to come make up the settings of the call (`OptionsRemain`).
-/

namespace DeskCalculator

/-! ### Calls -/

/-- The option for more diagnostics, by its name or by any number of letters. -/
def IsVerbose (option : String) : Prop :=
  option = "--verbose" ∨ ∃ more, option.toList = '-' :: 'v' :: List.replicate more 'v'

/-- Options that come to the settings. -/
structure OptionsGive (options : List String) (r : Settings) : Prop where
  known : ∀ option ∈ options,
    option = "--strict-parens" ∨ option = "--strict-division" ∨ IsVerbose option
  closing : options.count "--strict-parens" = r.requireClosing.toNat
  finite : options.count "--strict-division" = r.requireFinite.toNat

/-- A call with options that come to the settings, and then the expressions. -/
def CallsFor (r : Settings) (expressions arguments : List String) : Prop :=
  ∃ options, OptionsGive options r ∧
    (arguments = options ++ "--" :: expressions ∨
      arguments = options ++ expressions ∧
        ∀ first, expressions.head? = some first → first.toList.head? ≠ some '-')

/-! ### One argument -/

namespace Switch

theorem mapM_lookup_replicate (more : Nat) :
    (List.replicate more 'v').mapM (fun letter => lettered.lookup letter)
      = some (List.replicate more verbose) := by
  induction more with
  | zero => rfl
  | succ more ih =>
    rw [List.replicate_succ, List.mapM_cons, ih]
    rfl

theorem ofLetters?_replicate (more : Nat) :
    ofLetters? ('v' :: List.replicate more 'v') = some verbose := by
  have hletters := mapM_lookup_replicate (more + 1)
  rw [List.replicate_succ] at hletters
  have hnone : (List.replicate (more + 1) verbose).find? (· != verbose) = none := by
    rw [List.find?_eq_none]
    intro switch hswitch
    rw [List.eq_of_mem_replicate hswitch]
    decide
  unfold ofLetters?
  rw [hletters, Option.map_some, hnone]
  rfl

theorem ofArgument?_of_isVerbose {option : String} (h : IsVerbose option) :
    ofArgument? option = some verbose := by
  rcases h with rfl | ⟨more, hoption⟩
  · decide
  · unfold ofArgument?
    rw [hoption]
    exact ofLetters?_replicate more

theorem ofArgument?_eq_none {argument : String} (h : argument.toList.head? ≠ some '-') :
    ofArgument? argument = none := by
  unfold ofArgument?
  split
  · next name hargument =>
    rw [hargument] at h
    exact absurd rfl h
  · next letters hargument =>
    rw [hargument] at h
    exact absurd rfl h
  · rfl

end Switch

theorem IsVerbose.ne {option other : String} (h : IsVerbose option)
    (hother : Switch.ofArgument? other ≠ some .verbose) : option ≠ other := by
  rintro rfl
  exact hother (Switch.ofArgument?_of_isVerbose h)

/-! ### All arguments -/

/-- The settings so far and the strict options among those to come make up the settings. -/
structure OptionsRemain (s : Settings) (options : List String) (r : Settings) : Prop where
  known : ∀ option ∈ options,
    option = "--strict-parens" ∨ option = "--strict-division" ∨ IsVerbose option
  closing : s.requireClosing.toNat + options.count "--strict-parens" = r.requireClosing.toNat
  finite : s.requireFinite.toNat + options.count "--strict-division" = r.requireFinite.toNat

/-- What may be given once has not been given yet when it comes, and does not come again. -/
theorem first_of_once {given wanted : Bool} {more : Nat}
    (h : given.toNat + (more + 1) = wanted.toNat) :
    given = false ∧ true.toNat + more = wanted.toNat := by
  have hwanted := Bool.toNat_lt wanted
  constructor
  · apply Bool.toNat_eq_zero.mp
    omega
  · rw [Bool.toNat_true]
    omega

namespace OptionsRemain

variable {s r : Settings} {option : String} {options : List String}

theorem known_tail (h : OptionsRemain s (option :: options) r) : ∀ other ∈ options,
    other = "--strict-parens" ∨ other = "--strict-division" ∨ IsVerbose other := by
  intro other hother
  exact h.known other (List.mem_cons_of_mem option hother)

theorem eq_of_nil (h : OptionsRemain s [] r) : s = r := by
  have hclosing : s.requireClosing = r.requireClosing := by
    rw [Bool.eq_iff_iff, ← Bool.toNat_eq_one, ← Bool.toNat_eq_one, ← h.closing]
    rfl
  have hfinite : s.requireFinite = r.requireFinite := by
    rw [Bool.eq_iff_iff, ← Bool.toNat_eq_one, ← Bool.toNat_eq_one, ← h.finite]
    rfl
  cases s
  cases r
  simp_all only

theorem tail_of_closing (h : OptionsRemain s ("--strict-parens" :: options) r) :
    s.requireClosing = false ∧ OptionsRemain { s with requireClosing := true } options r := by
  have hclosing := h.closing
  have hfinite := h.finite
  rw [List.count_cons_self] at hclosing
  rw [List.count_cons_of_ne (by decide)] at hfinite
  obtain ⟨hfirst, hclosing⟩ := first_of_once hclosing
  exact ⟨hfirst, h.known_tail, hclosing, hfinite⟩

theorem tail_of_finite (h : OptionsRemain s ("--strict-division" :: options) r) :
    s.requireFinite = false ∧ OptionsRemain { s with requireFinite := true } options r := by
  have hclosing := h.closing
  have hfinite := h.finite
  rw [List.count_cons_of_ne (by decide)] at hclosing
  rw [List.count_cons_self] at hfinite
  obtain ⟨hfirst, hfinite⟩ := first_of_once hfinite
  exact ⟨hfirst, h.known_tail, hclosing, hfinite⟩

theorem tail_of_verbose (h : OptionsRemain s (option :: options) r) (hverbose : IsVerbose option) :
    OptionsRemain s options r := by
  have hclosing := h.closing
  have hfinite := h.finite
  rw [List.count_cons_of_ne (hverbose.ne (by decide))] at hclosing
  rw [List.count_cons_of_ne (hverbose.ne (by decide))] at hfinite
  exact ⟨h.known_tail, hclosing, hfinite⟩

end OptionsRemain

namespace Request

theorem ofArgumentsFrom_append {s r : Settings} {options : List String}
    (h : OptionsRemain s options r) (rest : List String) :
    ofArgumentsFrom s (options ++ rest) = ofArgumentsFrom r rest := by
  induction options generalizing s with
  | nil =>
    rw [h.eq_of_nil]
    rfl
  | cons option options ih =>
    rw [List.cons_append]
    rcases h.known option List.mem_cons_self with rfl | rfl | hverbose
    · have hswitch : Switch.ofArgument? "--strict-parens" = some .requireClosing := by decide
      obtain ⟨hfirst, hremain⟩ := h.tail_of_closing
      rw [ofArgumentsFrom, if_neg (by decide), hswitch, ← ih hremain]
      simp only [hfirst, Bool.false_eq_true, if_false]
    · have hswitch : Switch.ofArgument? "--strict-division" = some .requireFinite := by decide
      obtain ⟨hfirst, hremain⟩ := h.tail_of_finite
      rw [ofArgumentsFrom, if_neg (by decide), hswitch, ← ih hremain]
      simp only [hfirst, Bool.false_eq_true, if_false]
    · have hend : option ≠ "--" := hverbose.ne (by decide)
      rw [ofArgumentsFrom, if_neg hend, Switch.ofArgument?_of_isVerbose hverbose,
        ← ih (h.tail_of_verbose hverbose)]

/-- What does not look like an option is the first expression. -/
theorem ofArgumentsFrom_eq_calculate {expressions : List String}
    (h : ∀ first, expressions.head? = some first → first.toList.head? ≠ some '-')
    (s : Settings) : ofArgumentsFrom s expressions = calculate s expressions := by
  cases expressions with
  | nil => rfl
  | cons first more =>
    have hfirst := h first rfl
    have hend : first ≠ "--" := by
      rintro rfl
      exact hfirst rfl
    rw [ofArgumentsFrom, if_neg hend, Switch.ofArgument?_eq_none hfirst]

theorem ofArguments_of_callsFor {r : Settings} {expressions arguments : List String}
    (h : CallsFor r expressions arguments) :
    ofArguments arguments = calculate r expressions := by
  obtain ⟨options, hoptions, hform⟩ := h
  have hremain : OptionsRemain {} options r := by
    refine ⟨hoptions.known, ?_, ?_⟩
    · rw [hoptions.closing]
      exact Nat.zero_add _
    · rw [hoptions.finite]
      exact Nat.zero_add _
  unfold ofArguments
  rcases hform with rfl | ⟨rfl, hfirst⟩
  · rw [ofArgumentsFrom_append hremain]
    rfl
  · rw [ofArgumentsFrom_append hremain]
    exact ofArgumentsFrom_eq_calculate hfirst r

end Request

end DeskCalculator
