import DeskCalculator.IndexCursor
import DeskCalculator.Proofs.TextConsumer

/-!
# The index cursor refines the consumer

An `IndexCursor` keeps the whole text and moves an index over it; a `Cursor` has only the
characters that are left.  The second is a view of the first (`IndexCursor.consumer`), and every
request does the same to both (`IndexCursor.Follows`): one step of the index takes the head off
the list, so a loop of such steps drops what `List.dropWhile` drops.

A run is cut out of the text after the loop.  That the cut succeeds is not its own doing: it does
because the index has never left the text (`IndexCursor.InText`), whatever has been requested
before.  What a request consumes is then said in words of lists (`IndexCursor.perform_consumes`).
-/

namespace DeskCalculator

/-! ### Runs of a consumer, one character at a time -/

namespace Cursor

variable {c : Cursor} {test : Char → Bool}

/-- A run stops where the character in view does not satisfy the test, and at the end. -/
theorem takeWhile_of_any_current (h : c.current.any test = false) :
    (c.takeWhile test).2 = c := by
  have hrun : ∀ char ∈ [], test char = true := nofun
  exact congrArg Prod.snd (takeWhile_run hrun h c.position)

theorem takeWhile_of_current {char : Char} (h : c.current = some char)
    (htest : test char = true) : (c.takeWhile test).2 = (c.advance.takeWhile test).2 := by
  obtain ⟨position, rest⟩ := c
  obtain ⟨rest, rfl⟩ := List.head?_eq_some_iff.mp h
  simp only [takeWhile, advance, List.takeWhile_cons_of_pos htest,
    List.dropWhile_cons_of_pos htest, List.length_cons, Nat.add_assoc, Nat.add_comm 1]

end Cursor

namespace IndexCursor

/-! ### What is left -/

/-- The characters that are left. -/
def rest (c : IndexCursor) : List Char := c.chars.toList.drop c.position

/-- The cursor that keeps what is left and nothing else. -/
def consumer (c : IndexCursor) : Cursor := ⟨c.position, c.rest⟩

/-- The index is one of a character, or the one behind the last. -/
def InText (c : IndexCursor) : Prop := c.position ≤ c.chars.size

variable {c middle next : IndexCursor} {expected : Cursor} {test : Char → Bool} {char : Char}

theorem current_eq_head? (c : IndexCursor) : c.current = c.rest.head? := by
  rw [current, rest, List.head?_drop, Array.getElem?_toList]

@[simp] theorem current_consumer (c : IndexCursor) : c.consumer.current = c.current :=
  c.current_eq_head?.symm

theorem current_eq_none_iff : c.current = none ↔ c.rest = [] := by
  rw [current_eq_head?, List.head?_eq_none_iff]

theorem rest_of_current (h : c.current = some char) : c.rest = char :: c.advance.rest := by
  obtain ⟨hlt, hchar⟩ := Array.getElem?_eq_some_iff.mp h
  rw [advance_of_current h, rest, rest, List.drop_eq_getElem_cons hlt, Array.getElem_toList, hchar]

theorem rest_eq_nil_iff : c.rest = [] ↔ c.chars.size ≤ c.position := by
  rw [rest, List.drop_eq_nil_iff, Array.length_toList]

@[simp] theorem atEnd_consumer (c : IndexCursor) : c.consumer.atEnd = c.atEnd := by
  rw [Bool.eq_iff_iff, Cursor.atEnd, List.isEmpty_iff, atEnd, decide_eq_true_iff]
  exact rest_eq_nil_iff

@[simp] theorem errorHere_consumer (c : IndexCursor) : c.consumer.errorHere = c.errorHere := by
  rw [Cursor.errorHere, current_consumer]
  rfl

/-- Inside the text, the end is at the length of the text and nowhere else. -/
theorem InText.errorHere_of_nil (h : c.InText) (hend : c.rest = []) :
    c.errorHere = .unexpectedEnd c.chars.size := by
  have hposition : c.position = c.chars.size := Nat.le_antisymm h (rest_eq_nil_iff.mp hend)
  rw [← errorHere_consumer, ← hposition]
  exact Cursor.errorHere_of_nil hend

/-- What lies behind the index and what is left make up the text. -/
theorem InText.passes (h : c.InText) :
    (Cursor.ofList c.chars.toList).Passes (c.chars.toList.take c.position) c.consumer where
  rest_eq := (List.take_append_drop c.position c.chars.toList).symm
  position_eq := by
    rw [List.length_take_of_le (by rwa [Array.length_toList])]
    exact (Nat.zero_add _).symm

theorem inText_ofText (text : String) : (ofText text).InText := Nat.zero_le _

/-! ### In step with the consumer -/

/-- The second cursor stands in the same text, not beyond its end, and looks to the consumer
    as expected. -/
structure Follows (c next : IndexCursor) (expected : Cursor) : Prop where
  chars_eq : next.chars = c.chars
  inText : c.InText → next.InText
  consumer_eq : next.consumer = expected

theorem Follows.refl (c : IndexCursor) : c.Follows c c.consumer := ⟨rfl, id, rfl⟩

theorem Follows.trans {through : Cursor} (h : c.Follows middle through)
    (h' : middle.Follows next expected) : c.Follows next expected where
  chars_eq := h'.chars_eq.trans h.chars_eq
  inText hc := h'.inText (h.inText hc)
  consumer_eq := h'.consumer_eq

theorem follows_advance (c : IndexCursor) : c.Follows c.advance c.consumer.advance := by
  cases hcurrent : c.current with
  | none =>
    have hrest : c.rest = [] := current_eq_none_iff.mp hcurrent
    have hstay : c.advance = c := if_pos (decide_eq_true (rest_eq_nil_iff.mp hrest))
    have hexpected : c.consumer.advance = c.consumer := by
      rw [consumer, hrest]
      rfl
    rw [hstay, hexpected]
    exact .refl c
  | some char =>
    have hexpected : c.advance.consumer = c.consumer.advance := by
      rw [consumer, consumer, rest_of_current hcurrent, advance_of_current hcurrent]
      rfl
    refine ⟨?_, ?_, hexpected⟩
    · rw [advance_of_current hcurrent]
    · intro _
      rw [advance_of_current hcurrent]
      exact position_lt_size hcurrent

/-! ### Loops -/

/-- A loop has passed one character and the consumer's run starts with it. -/
theorem Follows.step (hcurrent : c.current = some char) (htest : test char = true)
    (h : c.advance.Follows next (c.advance.consumer.takeWhile test).2) :
    c.Follows next (c.consumer.takeWhile test).2 := by
  rw [Cursor.takeWhile_of_current (c.current_consumer.trans hcurrent) htest,
    ← c.follows_advance.consumer_eq]
  exact c.follows_advance.trans h

/-- A loop stops where the consumer's run ends. -/
theorem Follows.stop (h : c.current.any test = false) :
    c.Follows c (c.consumer.takeWhile test).2 := by
  rw [Cursor.takeWhile_of_any_current (by rwa [current_consumer])]
  exact .refl c

theorem follows_passWhile (test : Char → Bool) (c : IndexCursor) :
    c.Follows (c.passWhile test) (c.consumer.takeWhile test).2 := by
  fun_induction passWhile test c with
  | case1 c hcurrent => exact .stop (by rw [hcurrent, Option.any_none])
  | case2 c char hcurrent htest ih => exact .step hcurrent htest ih
  | case3 c char hcurrent htest =>
    apply Follows.stop
    rw [hcurrent, Option.any_some]
    exact eq_false_of_ne_true htest

theorem follows_skipSpaces (c : IndexCursor) :
    c.Follows c.skipSpaces c.consumer.skipSpaces := by
  fun_induction skipSpaces c with
  | case1 c hcurrent ih => exact .step hcurrent rfl ih
  | case2 c hcurrent =>
    apply Follows.stop
    cases hhead : c.current with
    | none => rfl
    | some char =>
      rw [hhead, Option.some_inj] at hcurrent
      rw [Option.any_some]
      exact beq_false_of_ne hcurrent

/-! ### Runs and symbols -/

/-- After a loop the cut is inside the text, and it is the consumer's run. -/
theorem takeWhile?_eq (h : c.InText) (test : Char → Bool) :
    c.takeWhile? test = some ((c.consumer.takeWhile test).1, c.passWhile test) := by
  have hloop := c.follows_passWhile test
  have hpassed := c.consumer.passes_takeWhile test
  rw [← hloop.consumer_eq] at hpassed
  have hbounds : c.position ≤ (c.passWhile test).position ∧
      (c.passWhile test).position ≤ (c.passWhile test).chars.size :=
    ⟨hpassed.position_le, hloop.inText h⟩
  have hrun : (c.chars.extract c.position (c.passWhile test).position).toList
      = (c.consumer.takeWhile test).1 := by
    rw [Array.toList_extract]
    exact (h.passes.eq_extract hpassed).symm
  rw [takeWhile?, slice?, if_pos hbounds, hloop.chars_eq, hrun]
  rfl

/-- From an index beyond the text nothing can be cut. -/
example : (IndexCursor.mk #[] 1).takeWhile? (fun _ => true) = none := by cbv

theorem eat_consumer (symbol : Char) (c : IndexCursor) :
    (c.consumer.eat symbol).1 = (c.eat symbol).1 ∧
      c.Follows (c.eat symbol).2 (c.consumer.eat symbol).2 := by
  have hskip := c.follows_skipSpaces
  rw [Cursor.eat_eq, ← hskip.consumer_eq, current_consumer, eat]
  split
  · exact ⟨rfl, hskip.trans c.skipSpaces.follows_advance⟩
  · exact ⟨rfl, hskip.trans (.refl _)⟩

/-! ### Requests -/

/-- The answer to a request and the cursor afterwards, unless a cut fails. -/
def perform? (c : IndexCursor) : Cursor.Request → Option (Cursor.Answer × IndexCursor)
  | .advance => some (.silent, c.advance)
  | .skipSpaces => some (.silent, c.skipSpaces)
  | .eat symbol => some (.found (c.eat symbol).1, (c.eat symbol).2)
  | .takeWhile test => (c.takeWhile? test).map fun taken => (.run taken.1, taken.2)
  | .errorHere => some (.error c.errorHere, c)

/-- The cursor after a sequence of requests, unless one of them fails. -/
def after? (c : IndexCursor) : List Cursor.Request → Option IndexCursor
  | [] => some c
  | request :: requests => (c.perform? request).bind fun done => done.2.after? requests

/-- No request fails inside the text, and it is answered as the consumer answers it. -/
theorem InText.exists_perform? (h : c.InText) (request : Cursor.Request) :
    ∃ next, c.perform? request = some ((c.consumer.perform request).1, next) ∧
      c.Follows next (c.consumer.perform request).2 := by
  cases request with
  | advance => exact ⟨c.advance, rfl, c.follows_advance⟩
  | skipSpaces => exact ⟨c.skipSpaces, rfl, c.follows_skipSpaces⟩
  | eat symbol =>
    obtain ⟨hanswer, hfollows⟩ := c.eat_consumer symbol
    refine ⟨(c.eat symbol).2, ?_, hfollows⟩
    rw [perform?, Cursor.perform, hanswer]
  | takeWhile test =>
    refine ⟨c.passWhile test, ?_, c.follows_passWhile test⟩
    rw [perform?, takeWhile?_eq h]
    rfl
  | errorHere =>
    refine ⟨c, ?_, .refl c⟩
    rw [perform?, Cursor.perform, errorHere_consumer]

/-- Nor does a sequence of requests, since every request leaves the index inside the text. -/
theorem InText.exists_after? (h : c.InText) (requests : List Cursor.Request) :
    ∃ next, c.after? requests = some next ∧ c.Follows next (c.consumer.after requests) := by
  induction requests generalizing c with
  | nil => exact ⟨c, rfl, .refl c⟩
  | cons request requests ih =>
    obtain ⟨middle, hperform, hfirst⟩ := h.exists_perform? request
    obtain ⟨next, hafter, hmore⟩ := ih (hfirst.inText h)
    rw [hfirst.consumer_eq] at hmore
    refine ⟨next, ?_, hfirst.trans hmore⟩
    rw [after?, hperform]
    exact hafter

/-- What a request consumes for the consumer, it consumes for the index. -/
theorem Follows.consumes_iff {request : Cursor.Request} {answer : Cursor.Answer}
    {rest : List Char} (h : c.Follows next (c.consumer.perform request).2) :
    Cursor.Consumes c.position request c.rest answer rest ↔
      answer = (c.consumer.perform request).1 ∧ rest = next.rest := by
  have hleft : next.rest = (c.consumer.perform request).2.rest :=
    congrArg Cursor.rest h.consumer_eq
  rw [hleft]
  exact Cursor.consumes_iff (c := c.consumer)

/-- Any requests can be made of a text, one after another, and no cut fails.  The index splits the
    text into what has been consumed and what is left, as the consumer has it.  The next
    request takes some more characters, never beyond the text, as its description for lists
    says and in no other way. -/
theorem perform_consumes (text : String) (requests : List Cursor.Request)
    (request : Cursor.Request) :
    ∃ here next answer consumed passed,
      (ofText text).after? requests = some here ∧
      here.perform? request = some (answer, next) ∧
      here.consumer = (Cursor.ofText text).after requests ∧
      here.consumer.perform request = (answer, next.consumer) ∧
      text.toList = consumed ++ here.rest ∧ here.position = consumed.length ∧
      here.rest = passed ++ next.rest ∧ next.position = here.position + passed.length ∧
      here.position ≤ next.position ∧ next.position ≤ text.length ∧
      (∀ answer' rest, Cursor.Consumes here.position request here.rest answer' rest ↔
        answer' = answer ∧ rest = next.rest) ∧
      (∀ test, request = .takeWhile test →
        answer = .run (text.toList.extract here.position next.position)) ∧
      here.current = text.toList[here.position]? ∧
      (here.atEnd = true ↔ here.current = none) ∧ (here.current = none ↔ here.rest = []) ∧
      (∀ char rest, here.rest = char :: rest →
        here.errorHere = .unexpectedChar char here.position) ∧
      (here.rest = [] → here.errorHere = .unexpectedEnd text.length) := by
  obtain ⟨here, hafter, hhere⟩ := (inText_ofText text).exists_after? requests
  have hinText : here.InText := hhere.inText (inText_ofText text)
  obtain ⟨next, hperform, hnext⟩ := hinText.exists_perform? request
  obtain ⟨passed, hpassed⟩ := here.consumer.passes_perform request
  rw [← hnext.consumer_eq] at hpassed
  have hchars : here.chars.toList = text.toList := by rw [hhere.chars_eq, ofText]
  have hsize : here.chars.size = text.length := by
    rw [← Array.length_toList, hchars, String.length_toList]
  have hconsumed := hinText.passes
  rw [hchars] at hconsumed
  have hinside : next.position ≤ text.length := by
    rw [← hsize, ← hnext.chars_eq]
    exact hnext.inText hinText
  refine ⟨here, next, _, text.toList.take here.position, passed, hafter, hperform,
    hhere.consumer_eq, Prod.ext rfl hnext.consumer_eq.symm, hconsumed.rest_eq,
    hconsumed.position_eq.trans (Nat.zero_add _), hpassed.rest_eq, hpassed.position_eq,
    hpassed.position_le, hinside, ?_, ?_, ?_, ?_, current_eq_none_iff, ?_, ?_⟩
  · intro answer' rest
    exact hnext.consumes_iff
  · rintro test rfl
    have hrun : here.consumer.Passes (here.consumer.takeWhile test).1 next.consumer := by
      rw [hnext.consumer_eq]
      exact here.consumer.passes_takeWhile test
    exact congrArg Cursor.Answer.run (hconsumed.eq_extract hrun)
  · rw [← hchars, Array.getElem?_toList]
    rfl
  · simpa using here.consumer.atEnd_iff
  · intro char rest hrest
    rw [← errorHere_consumer]
    exact Cursor.errorHere_of_cons hrest
  · rw [← hsize]
    exact hinText.errorHere_of_nil

end IndexCursor

end DeskCalculator
