import DeskCalculator.Proofs.SingleNumberForm

/-!
# A cursor consumes its text

A cursor keeps no part of the text that lies behind it.  That its position is still a place in
the text is a matter of how it is moved: whatever is asked of a cursor, it passes some characters
and counts them (`Cursor.Passes`), so the text stays split in what has been consumed and
what is left.

`Cursor.Consumes` says of each request what it does to the characters that are left, in
words of lists alone.  There is exactly one way to meet it, and the cursor finds it
(`Cursor.consumes_iff`).
-/

namespace DeskCalculator.Cursor

/-! ### From one place to a later one -/

/-- The second cursor stands behind the first, with the given characters between them. -/
structure Passes (c : Cursor) (passed : List Char) (next : Cursor) : Prop where
  rest_eq : c.rest = passed ++ next.rest
  position_eq : next.position = c.position + passed.length

variable {c middle next : Cursor} {passed more : List Char}

theorem Passes.refl (c : Cursor) : c.Passes [] c := ⟨rfl, rfl⟩

theorem Passes.trans (h : c.Passes passed middle) (h' : middle.Passes more next) :
    c.Passes (passed ++ more) next where
  rest_eq := by rw [h.rest_eq, h'.rest_eq, List.append_assoc]
  position_eq := by rw [h'.position_eq, h.position_eq, List.length_append, Nat.add_assoc]

theorem Passes.position_le (h : c.Passes passed next) : c.position ≤ next.position := by
  rw [h.position_eq]
  exact Nat.le_add_right _ _

/-- Between two places stands one sequence of characters. -/
theorem Passes.unique (h : c.Passes passed next) (h' : c.Passes more next) : passed = more :=
  List.append_cancel_right (h.rest_eq.symm.trans h'.rest_eq)

/-- Passing moves the count from what is left to what lies behind. -/
theorem Passes.position_add_length (h : c.Passes passed next) :
    next.position + next.rest.length = c.position + c.rest.length := by
  rw [h.position_eq, h.rest_eq, List.length_append, Nat.add_assoc]

theorem passes_advance (c : Cursor) : ∃ passed, c.Passes passed c.advance := by
  obtain ⟨position, rest⟩ := c
  cases rest with
  | nil => exact ⟨[], .refl _⟩
  | cons char rest => exact ⟨[char], rfl, rfl⟩

theorem passes_takeWhile (test : Char → Bool) (c : Cursor) :
    c.Passes (c.takeWhile test).1 (c.takeWhile test).2 where
  rest_eq := List.takeWhile_append_dropWhile.symm
  position_eq := rfl

theorem all_takeWhile (test : Char → Bool) (c : Cursor) :
    ∀ char ∈ (c.takeWhile test).1, test char = true :=
  List.all_eq_true.mp List.all_takeWhile

/-- What stops a run is not part of it. -/
theorem head?_takeWhile_any (test : Char → Bool) (c : Cursor) :
    (c.takeWhile test).2.rest.head?.any test = false := by
  have hhead := List.head?_dropWhile_not test c.rest
  show (c.rest.dropWhile test).head?.any test = false
  cases hdrop : (c.rest.dropWhile test).head? with
  | none => rfl
  | some char => simpa [hdrop] using hhead

theorem passes_skipSpaces (c : Cursor) : ∃ blanks, c.Passes (spaces blanks) c.skipSpaces := by
  obtain ⟨position, rest⟩ := c
  obtain ⟨blanks, rest, rfl, hrest⟩ := exists_spaces rest
  refine ⟨blanks, ?_⟩
  rw [skipSpaces_spaces hrest]
  constructor
  · rfl
  · simp [spaces]

theorem passes_eat (symbol : Char) (c : Cursor) : ∃ passed, c.Passes passed (c.eat symbol).2 := by
  obtain ⟨blanks, hskip⟩ := c.passes_skipSpaces
  rw [eat_eq]
  split
  · obtain ⟨passed, hadvance⟩ := c.skipSpaces.passes_advance
    exact ⟨_, hskip.trans hadvance⟩
  · exact ⟨_, hskip⟩

/-! ### Requests and answers -/

/-- What can be asked of a cursor. -/
inductive Request where
  | advance
  | skipSpaces
  | eat (symbol : Char)
  | takeWhile (test : Char → Bool)
  | errorHere

/-- What a cursor answers to a request. -/
inductive Answer where
  | silent
  | found (was : Bool)
  | run (chars : List Char)
  | error (e : SyntaxError)

/-- The answer to a request, and the cursor afterwards. -/
def perform (c : Cursor) : Request → Answer × Cursor
  | .advance => (.silent, c.advance)
  | .skipSpaces => (.silent, c.skipSpaces)
  | .eat symbol => (.found (c.eat symbol).1, (c.eat symbol).2)
  | .takeWhile test => (.run (c.takeWhile test).1, (c.takeWhile test).2)
  | .errorHere => (.error c.errorHere, c)

/-- The cursor after a sequence of requests. -/
def after (c : Cursor) (requests : List Request) : Cursor :=
  requests.foldl (fun c request => (c.perform request).2) c

theorem passes_perform (c : Cursor) (request : Request) :
    ∃ passed, c.Passes passed (c.perform request).2 := by
  cases request with
  | advance => exact c.passes_advance
  | skipSpaces =>
    obtain ⟨blanks, hskip⟩ := c.passes_skipSpaces
    exact ⟨_, hskip⟩
  | eat symbol => exact c.passes_eat symbol
  | takeWhile test => exact ⟨_, c.passes_takeWhile test⟩
  | errorHere => exact ⟨[], .refl c⟩

/-! ### What a request does to the characters that are left -/

/-- With so many characters behind, the request turns the characters that are left into the
    last argument, and is answered so. -/
inductive Consumes (behind : Nat) : Request → List Char → Answer → List Char → Prop where
  | advance (char : Char) (rest : List Char) :
      Consumes behind .advance (char :: rest) .silent rest
  | stay : Consumes behind .advance [] .silent []
  | skipSpaces (blanks : Nat) {rest : List Char} : rest.head? ≠ some ' ' →
      Consumes behind .skipSpaces (spaces blanks ++ rest) .silent rest
  | eat (blanks : Nat) {symbol : Char} (rest : List Char) : symbol ≠ ' ' →
      Consumes behind (.eat symbol) (spaces blanks ++ symbol :: rest) (.found true) rest
  | leave (blanks : Nat) {symbol : Char} {rest : List Char} : rest.head? ≠ some ' ' →
      rest.head? ≠ some symbol →
      Consumes behind (.eat symbol) (spaces blanks ++ rest) (.found false) rest
  | takeWhile {test : Char → Bool} {run rest : List Char} : (∀ char ∈ run, test char = true) →
      rest.head?.any test = false →
      Consumes behind (.takeWhile test) (run ++ rest) (.run run) rest
  | errorAt (char : Char) (rest : List Char) :
      Consumes behind .errorHere (char :: rest) (.error (.unexpectedChar char behind))
        (char :: rest)
  | errorAtEnd : Consumes behind .errorHere [] (.error (.unexpectedEnd behind)) []

variable {request : Request} {behind : Nat} {text rest : List Char} {answer : Answer}

/-- Nothing else is in keeping with what is said of a request. -/
theorem Consumes.perform_eq (h : Consumes behind request text answer rest) :
    ∃ next, (Cursor.mk behind text).perform request = (answer, next) ∧ next.rest = rest := by
  cases h with
  | advance char rest => exact ⟨_, rfl, rfl⟩
  | stay => exact ⟨_, rfl, rfl⟩
  | skipSpaces blanks hrest =>
    refine ⟨_, rfl, ?_⟩
    show (Cursor.mk behind (spaces blanks ++ rest)).skipSpaces.rest = rest
    rw [skipSpaces_spaces hrest]
  | @eat blanks symbol rest hsymbol =>
    have hhead : (symbol :: rest).head? ≠ some ' ' := by simpa using hsymbol
    have hskip := skipSpaces_spaces hhead behind blanks
    refine ⟨⟨behind + blanks + 1, rest⟩, ?_, rfl⟩
    simp [perform, eat_eq, hskip, current, Cursor.advance]
  | leave blanks hrest hsymbol =>
    have hskip := skipSpaces_spaces hrest behind blanks
    refine ⟨⟨behind + blanks, rest⟩, ?_, rfl⟩
    simp [perform, eat_eq, hskip, current, hsymbol]
  | @takeWhile test run _ hrun hrest =>
    refine ⟨⟨behind + run.length, rest⟩, ?_, rfl⟩
    rw [perform, takeWhile_run hrun hrest]
  | errorAt char rest => exact ⟨_, rfl, rfl⟩
  | errorAtEnd => exact ⟨_, rfl, rfl⟩

/-- Every request can be met, whatever is left. -/
theorem exists_consumes (behind : Nat) (request : Request) (text : List Char) :
    ∃ answer rest, Consumes behind request text answer rest := by
  cases request with
  | advance =>
    cases text with
    | nil => exact ⟨_, _, .stay⟩
    | cons char rest => exact ⟨_, _, .advance char rest⟩
  | skipSpaces =>
    obtain ⟨blanks, rest, rfl, hrest⟩ := exists_spaces text
    exact ⟨_, _, .skipSpaces blanks hrest⟩
  | eat symbol =>
    obtain ⟨blanks, rest, rfl, hrest⟩ := exists_spaces text
    by_cases hsymbol : rest.head? = some symbol
    · obtain ⟨rest, rfl⟩ := List.head?_eq_some_iff.mp hsymbol
      exact ⟨_, _, .eat blanks rest (by simpa using hrest)⟩
    · exact ⟨_, _, .leave blanks hrest hsymbol⟩
  | takeWhile test =>
    have htake : Consumes behind (.takeWhile test) (text.takeWhile test ++ text.dropWhile test) _ _ :=
      .takeWhile ((Cursor.mk behind text).all_takeWhile test)
        ((Cursor.mk behind text).head?_takeWhile_any test)
    rw [List.takeWhile_append_dropWhile] at htake
    exact ⟨_, _, htake⟩
  | errorHere =>
    cases text with
    | nil => exact ⟨_, _, .errorAtEnd⟩
    | cons char rest => exact ⟨_, _, .errorAt char rest⟩

theorem consumes_iff :
    Consumes c.position request c.rest answer rest ↔
      answer = (c.perform request).1 ∧ rest = (c.perform request).2.rest := by
  constructor
  · intro h
    obtain ⟨next, hperform, rfl⟩ := h.perform_eq
    rw [show c.perform request = (answer, next) from hperform]
    exact ⟨rfl, rfl⟩
  · rintro ⟨rfl, rfl⟩
    obtain ⟨answer, rest, h⟩ := exists_consumes c.position request c.rest
    obtain ⟨next, hperform, rfl⟩ := h.perform_eq
    rw [show c.perform request = (answer, next) from hperform]
    exact h

/-! ### What can be seen of a cursor -/

theorem atEnd_iff (c : Cursor) : c.atEnd = true ↔ c.current = none := by
  unfold atEnd current
  rw [List.isEmpty_iff, List.head?_eq_none_iff]

/-- The characters that are left are those of the text from the position on. -/
theorem Passes.rest_eq_drop (h : (ofList text).Passes passed c) : c.rest = text.drop c.position := by
  have hposition : c.position = passed.length := h.position_eq.trans (Nat.zero_add _)
  have htext : text = passed ++ c.rest := h.rest_eq
  rw [hposition, htext, List.drop_left]

/-- What has been passed is the part of the text between the two positions. -/
theorem Passes.eq_extract (h : (ofList text).Passes passed c) (h' : c.Passes more next) :
    more = text.extract c.position next.position := by
  have hlength : next.position - c.position = more.length := by
    rw [h'.position_eq, Nat.add_sub_cancel_left]
  rw [List.extract_eq_take_drop, ← h.rest_eq_drop, h'.rest_eq, hlength, List.take_left]

theorem errorHere_of_cons {char : Char} (h : c.rest = char :: rest) :
    c.errorHere = .unexpectedChar char c.position := by
  rw [errorHere, current, h, List.head?_cons]

theorem errorHere_of_nil (h : c.rest = []) : c.errorHere = .unexpectedEnd c.position := by
  rw [errorHere, current, h, List.head?_nil]

end DeskCalculator.Cursor
