import DeskCalculator.Proofs.OptionsFirst
import DeskCalculator.Proofs.SessionTyping

/-!
# Streams that are not text

A session ends early at a line that is not UTF-8, and then everything is as the lines before have
left it (`session_stops_at_spoilt_line`).  This happens to a stream exactly if it is not UTF-8 as
a whole: a line end is a character of its own and never a part of another, so bytes are UTF-8
if and only if each of their lines is (`isUtf8_iff_lines`).

A stream is a last line without a line feed, or a line, a line feed and another stream
(`lineInduction`).  What is said here of streams is proved along this structure.
-/

namespace DeskCalculator

def IsUtf8 (bytes : List UInt8) : Prop := bytes.toByteArray.IsValidUTF8

/-! ### Text and bytes -/

theorem fromUTF8?_eq_none {bytes : List UInt8} (h : ¬ IsUtf8 bytes) :
    String.fromUTF8? bytes.toByteArray = none := dif_neg h

theorem exists_fromUTF8? {bytes : List UInt8} (h : IsUtf8 bytes) :
    ∃ text, String.fromUTF8? bytes.toByteArray = some text := ⟨_, dif_pos h⟩

theorem isUtf8_iff {bytes : List UInt8} : IsUtf8 bytes ↔ ∃ text, bytes = encode text := by
  constructor
  · intro h
    obtain ⟨text, htext⟩ := exists_fromUTF8? h
    exact ⟨text.toList, fromUTF8?_eq_some_iff.mp htext⟩
  · rintro ⟨text, rfl⟩
    exact .intro text rfl

theorem isUtf8_nil : IsUtf8 [] := isUtf8_iff.mpr ⟨[], rfl⟩

/-- A character that is one byte in UTF-8. -/
structure IsAscii (char : Char) (byte : UInt8) : Prop where
  encoded : String.utf8EncodeChar char = [byte]
  toNat_eq : byte.toNat = char.toNat
  toNat_lt : char.toNat < 128

theorem isAscii_lineFeed : IsAscii '\n' lineFeed := ⟨by decide, rfl, by decide⟩

theorem isAscii_carriageReturn : IsAscii '\r' carriageReturn := ⟨by decide, rfl, by decide⟩

section Ascii

variable {char : Char} {byte : UInt8} {before after : List UInt8}

/-- The byte is all of the character that it is a byte of. -/
theorem IsAscii.whole (hascii : IsAscii char byte) {other : Char}
    (h : String.utf8EncodeChar other = before ++ byte :: after) : before = [] ∧ after = [] := by
  have hmem : byte ∈ String.utf8EncodeChar other := by
    rw [h]
    exact List.mem_append_right before List.mem_cons_self
  by_cases hsame : other = char
  · rw [hsame, hascii.encoded] at h
    obtain ⟨hbefore, hafter⟩ | ⟨tail, -, hnil⟩ := List.cons_eq_append_iff.mp h
    · exact ⟨hbefore, (List.cons_eq_cons.mp hafter).2⟩
    · have hlength := congrArg List.length hnil
      simp at hlength
  · exact absurd hmem (not_mem_utf8EncodeChar hsame hascii.toNat_eq hascii.toNat_lt)

theorem IsAscii.exists_encode (hascii : IsAscii char byte) {text : List Char}
    (h : encode text = before ++ byte :: after) :
    ∃ first second, before = encode first ∧ after = encode second := by
  induction text generalizing before with
  | nil =>
    have hlength := congrArg List.length h
    simp [encode] at hlength
  | cons other text ih =>
    rw [encode_cons] at h
    rcases List.append_eq_append_iff.mp h with ⟨more, rfl, hmore⟩ | ⟨more, hother, hmore⟩
    · obtain ⟨first, second, rfl, rfl⟩ := ih hmore
      refine ⟨other :: first, second, ?_, rfl⟩
      rw [encode_cons]
    · cases more with
      | nil =>
        -- the byte stands right behind this character
        have hrest : encode text = [] ++ byte :: after := hmore.symm
        obtain ⟨first, second, hfirst, rfl⟩ := ih hrest
        have hempty : first = [] := encode_eq_nil_iff.mp hfirst.symm
        refine ⟨[other], second, ?_, rfl⟩
        rw [encode_cons, ← hempty, ← hfirst, hother, List.append_nil, List.append_nil]
      | cons head more =>
        -- the byte stands within this character, and is all of it
        rw [List.cons_append] at hmore
        obtain ⟨rfl, rfl⟩ := List.cons_eq_cons.mp hmore
        obtain ⟨rfl, rfl⟩ := hascii.whole hother
        exact ⟨[], text, rfl, rfl⟩

/-- Bytes are UTF-8 if and only if they are on both sides of a one-byte character. -/
theorem IsAscii.isUtf8_append_cons (hascii : IsAscii char byte) :
    IsUtf8 (before ++ byte :: after) ↔ IsUtf8 before ∧ IsUtf8 after := by
  rw [isUtf8_iff, isUtf8_iff, isUtf8_iff]
  constructor
  · rintro ⟨text, htext⟩
    obtain ⟨first, second, hfirst, hsecond⟩ := hascii.exists_encode htext.symm
    exact ⟨⟨first, hfirst⟩, second, hsecond⟩
  · rintro ⟨⟨first, rfl⟩, second, rfl⟩
    refine ⟨first ++ char :: second, ?_⟩
    rw [encode_append, encode_cons, hascii.encoded]
    rfl

end Ascii

theorem isUtf8_dropReturn {line : List UInt8} : IsUtf8 (dropReturn line) ↔ IsUtf8 line := by
  unfold dropReturn
  split
  · next hreturn =>
    obtain ⟨before, rfl⟩ := List.getLast?_eq_some_iff.mp hreturn
    rw [List.dropLast_concat, isAscii_carriageReturn.isUtf8_append_cons]
    exact (and_iff_left isUtf8_nil).symm
  · exact Iff.rfl

/-! ### Line by line -/

/-- A stream is a line without a line feed, or a line, a line feed and another stream. -/
@[elab_as_elim]
theorem lineInduction {motive : List UInt8 → Prop} (bytes : List UInt8)
    (last : ∀ line, lineFeed ∉ line → motive line)
    (cons : ∀ line rest, lineFeed ∉ line → motive rest → motive (line ++ lineFeed :: rest)) :
    motive bytes := by
  induction hlength : bytes.length using Nat.strongRecOn generalizing bytes with
  | ind length ih =>
    by_cases hfeed : lineFeed ∈ bytes
    · obtain ⟨line, rest, rfl, hline⟩ := List.eq_append_cons_of_mem hfeed
      apply cons line rest hline
      refine ih rest.length ?_ rest rfl
      rw [← hlength, List.length_append, List.length_cons]
      omega
    · exact last bytes hfeed

theorem endedLines_append_lineFeed (before after : List UInt8) :
    endedLines (before ++ lineFeed :: after)
      = ((pieces before).map dropReturn ++ (endedLines after).1, (endedLines after).2) := by
  have hne : pieces after ≠ [] := by
    rw [pieces_eq_splitOn]
    exact List.splitOn_ne_nil _ _
  have hpieces : pieces (before ++ lineFeed :: after) = pieces before ++ pieces after := by
    rw [pieces_eq_splitOn, pieces_eq_splitOn, pieces_eq_splitOn]
    exact List.splitOn_append_cons_self before after
  unfold endedLines
  rw [hpieces, List.dropLast_append_of_ne_nil hne, List.map_append, List.getLastD_eq_getLast?,
    List.getLastD_eq_getLast?, List.getLast?_append, List.getLast?_eq_some_getLast hne]
  rfl

theorem lines_append_lineFeed (before after : List UInt8) :
    lines (before ++ lineFeed :: after) = (pieces before).map dropReturn ++ lines after := by
  unfold lines
  rw [endedLines_append_lineFeed]
  dsimp only
  split
  · rfl
  · exact List.append_assoc ..

theorem pieces_of_not_mem {line : List UInt8} (hline : lineFeed ∉ line) :
    pieces line = [line] := by
  rw [pieces_eq_splitOn]
  exact List.splitOn_eq_singleton hline

theorem lines_cons {line : List UInt8} (hline : lineFeed ∉ line) (rest : List UInt8) :
    lines (line ++ lineFeed :: rest) = dropReturn line :: lines rest := by
  rw [lines_append_lineFeed, pieces_of_not_mem hline]
  rfl

theorem endedLines_of_not_mem {line : List UInt8} (hline : lineFeed ∉ line) :
    endedLines line = ([], line) := by
  unfold endedLines
  rw [pieces_of_not_mem hline]
  rfl

theorem lines_of_not_mem {line : List UInt8} (hline : lineFeed ∉ line) (hne : line ≠ []) :
    lines line = [line] := by
  unfold lines
  rw [endedLines_of_not_mem hline]
  exact if_neg hne

/-- Lines that have ended are not touched by what follows. -/
theorem lines_append {before : List UInt8}
    (hbefore : before = [] ∨ before.getLast? = some lineFeed) (after : List UInt8) :
    lines (before ++ after) = lines before ++ lines after := by
  rcases hbefore with rfl | hlast
  · rfl
  · obtain ⟨front, rfl⟩ := List.getLast?_eq_some_iff.mp hlast
    have hempty : lines [] = [] := rfl
    rw [lines_append_lineFeed front [], List.append_assoc, List.singleton_append,
      lines_append_lineFeed front after, hempty, List.append_nil]

/-- A stream is UTF-8 exactly if each of its lines is. -/
theorem isUtf8_iff_lines (bytes : List UInt8) :
    IsUtf8 bytes ↔ ∀ line ∈ lines bytes, IsUtf8 line := by
  induction bytes using lineInduction with
  | last line hline =>
    by_cases hne : line = []
    · subst hne
      exact iff_of_true isUtf8_nil nofun
    · rw [lines_of_not_mem hline hne, List.forall_mem_singleton]
  | cons line rest hline ih =>
    rw [isAscii_lineFeed.isUtf8_append_cons, lines_cons hline, List.forall_mem_cons,
      isUtf8_dropReturn, ih]

/-! ### The first spoilt line -/

/-- The stream has a line that is not UTF-8, behind lines that are; `line` does without its line
    end, and `rest` starts with it. -/
structure SpoiltAt (bytes before line rest : List UInt8) : Prop where
  eq_append : bytes = before ++ (line ++ rest)
  starts : before = [] ∨ before.getLast? = some lineFeed
  single : lineFeed ∉ line
  ends : rest = [] ∨ rest.head? = some lineFeed
  earlier : ∀ other ∈ lines before, IsUtf8 other
  spoilt : ¬ IsUtf8 line

theorem SpoiltAt.cons {bytes before line rest first : List UInt8}
    (h : SpoiltAt bytes before line rest) (hfirst : lineFeed ∉ first) (htext : IsUtf8 first) :
    SpoiltAt (first ++ lineFeed :: bytes) (first ++ lineFeed :: before) line rest where
  eq_append := by
    rw [h.eq_append, List.append_assoc, List.cons_append]
  starts := by
    right
    rcases h.starts with rfl | hlast
    · exact List.getLast?_concat
    · rw [List.getLast?_append, List.getLast?_cons, hlast]
      rfl
  single := h.single
  ends := h.ends
  earlier := by
    rw [lines_cons hfirst, List.forall_mem_cons]
    exact ⟨isUtf8_dropReturn.mpr htext, h.earlier⟩
  spoilt := h.spoilt

theorem spoiltAt_first {line rest : List UInt8} (hline : lineFeed ∉ line)
    (hspoilt : ¬ IsUtf8 line) (hrest : rest = [] ∨ rest.head? = some lineFeed) :
    SpoiltAt (line ++ rest) [] line rest :=
  ⟨rfl, .inl rfl, hline, hrest, nofun, hspoilt⟩

theorem exists_spoiltAt {bytes : List UInt8} (h : ¬ IsUtf8 bytes) :
    ∃ before line rest, SpoiltAt bytes before line rest := by
  induction bytes using lineInduction with
  | last line hline =>
    have hfirst := spoiltAt_first hline h (.inl rfl)
    rw [List.append_nil] at hfirst
    exact ⟨[], line, [], hfirst⟩
  | cons line rest hline ih =>
    by_cases htext : IsUtf8 line
    · rw [isAscii_lineFeed.isUtf8_append_cons] at h
      obtain ⟨before, spoilt, more, hspoilt⟩ := ih fun hrest => h ⟨htext, hrest⟩
      exact ⟨line ++ lineFeed :: before, spoilt, more, hspoilt.cons hline htext⟩
    · exact ⟨[], line, lineFeed :: rest, spoiltAt_first hline htext (.inr rfl)⟩

theorem SpoiltAt.exists_lines {bytes before line rest : List UInt8}
    (h : SpoiltAt bytes before line rest) :
    ∃ bad more, lines bytes = lines before ++ bad :: more ∧ ¬ IsUtf8 bad := by
  rw [h.eq_append, lines_append h.starts]
  rcases h.ends with rfl | hhead
  · have hne : line ≠ [] := by
      rintro rfl
      exact h.spoilt isUtf8_nil
    rw [List.append_nil, lines_of_not_mem h.single hne]
    exact ⟨line, [], rfl, h.spoilt⟩
  · obtain ⟨more, rfl⟩ := List.head?_eq_some_iff.mp hhead
    rw [lines_cons h.single]
    refine ⟨dropReturn line, lines more, rfl, ?_⟩
    rw [isUtf8_dropReturn]
    exact h.spoilt

/-! ### Sessions -/

namespace Session

variable {s : Session} {errors : Nat} {good : List (List UInt8)}

theorem exists_errors_foldl (hrunning : s.errors = .ok errors)
    (hgood : ∀ line ∈ good, IsUtf8 line) :
    ∃ count, (good.foldl readLine s).errors = .ok count := by
  induction good generalizing s errors with
  | nil => exact ⟨errors, hrunning⟩
  | cons line good ih =>
    obtain ⟨text, htext⟩ := exists_fromUTF8? (hgood line List.mem_cons_self)
    rw [List.foldl_cons, readLine_of_text hrunning htext]
    apply ih rfl
    intro other hother
    exact hgood other (List.mem_cons_of_mem line hother)

theorem readLine_of_not_isUtf8 (hrunning : s.errors = .ok errors) {line : List UInt8}
    (hline : ¬ IsUtf8 line) : s.readLine line = { s with errors := .error .notUtf8 } := by
  unfold readLine
  rw [hrunning, fromUTF8?_eq_none hline]

/-- Nothing of a bad line and of what follows it is typed or shown. -/
theorem foldl_readLine_of_bad (hrunning : s.errors = .ok errors)
    (hgood : ∀ line ∈ good, IsUtf8 line) {bad : List UInt8} (hbad : ¬ IsUtf8 bad)
    (more : List (List UInt8)) :
    (good ++ bad :: more).foldl readLine s
      = { good.foldl readLine s with errors := .error .notUtf8 } := by
  obtain ⟨count, hcount⟩ := exists_errors_foldl hrunning hgood
  rw [List.foldl_append, List.foldl_cons, readLine_of_not_isUtf8 hcount hbad]
  exact foldl_readLine_of_error rfl more

end Session

namespace Calculator

variable {c : Calculator} {bytes before line rest : List UInt8}

theorem session_of_spoiltAt (h : SpoiltAt bytes before line rest) :
    c.session bytes = { c.session before with errors := .error .notUtf8 } := by
  obtain ⟨bad, more, hlines, hbad⟩ := h.exists_lines
  unfold session
  rw [hlines]
  exact Session.foldl_readLine_of_bad rfl h.earlier hbad more

theorem exists_errors_session (h : ∀ line ∈ lines bytes, IsUtf8 line) :
    ∃ count, (c.session bytes).errors = .ok count :=
  Session.exists_errors_foldl (s := .start c) rfl h

theorem exists_errors_session_iff :
    (∃ count, (c.session bytes).errors = .ok count) ↔ IsUtf8 bytes := by
  constructor
  · rintro ⟨count, hcount⟩
    by_cases htext : IsUtf8 bytes
    · exact htext
    · obtain ⟨before, line, rest, hspoilt⟩ := exists_spoiltAt htext
      rw [session_of_spoiltAt hspoilt] at hcount
      cases hcount
  · intro htext
    exact exists_errors_session ((isUtf8_iff_lines bytes).mp htext)

end Calculator

theorem answer_of_no_expressions {r : Settings} {arguments : List String}
    (hcall : CallsFor r [] arguments) (input : List UInt8) :
    answer arguments input =
      ⟨Answer.statusOfSession ((Calculator.new r).session input),
        ((Calculator.new r).session input).output⟩ := by
  unfold answer
  rw [Request.ofArguments_of_callsFor hcall]
  rfl

/-- A session succeeds exactly on UTF-8.  On anything else it fails, and has done what it does on
    the lines before the first that is not UTF-8; a call without expressions writes what the
    session writes and tells the two apart by its status. -/
theorem session_stops_at_spoilt_line (r : Settings) (bytes : List UInt8) :
    ((∃ count, ((Calculator.new r).session bytes).errors = .ok count) ↔ IsUtf8 bytes) ∧
    (¬ IsUtf8 bytes → ∃ before line rest, SpoiltAt bytes before line rest) ∧
    (∀ before line rest, SpoiltAt bytes before line rest →
      ((Calculator.new r).session bytes).errors = .error .notUtf8 ∧
      ((Calculator.new r).session bytes).output = ((Calculator.new r).session before).output ∧
      ((Calculator.new r).session bytes).calculator
        = ((Calculator.new r).session before).calculator ∧
      ∃ count, ((Calculator.new r).session before).errors = .ok count) ∧
    ∀ arguments, CallsFor r [] arguments →
      (answer arguments bytes).output = ((Calculator.new r).session bytes).output ∧
      (IsUtf8 bytes → (answer arguments bytes).status = 0) ∧
      (¬ IsUtf8 bytes → (answer arguments bytes).status = 1) := by
  refine ⟨Calculator.exists_errors_session_iff, exists_spoiltAt, ?_, ?_⟩
  · intro before line rest hspoilt
    rw [Calculator.session_of_spoiltAt hspoilt]
    exact ⟨rfl, rfl, rfl, Calculator.exists_errors_session hspoilt.earlier⟩
  · intro arguments hcall
    rw [answer_of_no_expressions hcall]
    refine ⟨rfl, ?_, ?_⟩
    · intro htext
      obtain ⟨count, hcount⟩ := Calculator.exists_errors_session_iff.mpr htext
      unfold Answer.statusOfSession
      rw [hcount]
    · intro hnot
      obtain ⟨before, line, rest, hspoilt⟩ := exists_spoiltAt hnot
      unfold Answer.statusOfSession
      rw [Calculator.session_of_spoiltAt hspoilt]

/-- A character that is cut off by a line end spoils its line, and the next is not typed. -/
example : ((Calculator.new {}).session [49, 10, 195, 10, 50]).output
    = "[                       1]\n" := by decide

end DeskCalculator
