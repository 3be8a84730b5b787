import DeskCalculator.Session

/-!
# Lines of a text

A session cuts bytes into lines.  Where the bytes are the UTF-8 of a text, the same lines are
found by cutting the text: a line feed and a carriage return are one byte each, and that byte is
part of no other character (`toNat_eq_of_mem_utf8EncodeChar`).  So every line of a text is a
text (`lines_encode`), and all that the cutting loses is line feeds and carriage returns
(`flatMap_filterMap_charLines`).
-/

namespace DeskCalculator

/-! ### Bytes of a text -/

/-- The UTF-8 of some characters. -/
def encode (text : List Char) : List UInt8 := text.flatMap String.utf8EncodeChar

theorem encode_cons (char : Char) (text : List Char) :
    encode (char :: text) = String.utf8EncodeChar char ++ encode text :=
  List.flatMap_cons

theorem encode_append (first second : List Char) :
    encode (first ++ second) = encode first ++ encode second :=
  List.flatMap_append

theorem encode_eq_nil_iff {text : List Char} : encode text = [] ↔ text = [] := by
  cases text with
  | nil => exact iff_of_true rfl rfl
  | cons char text =>
    refine iff_of_false (fun h => ?_) (List.cons_ne_nil char text)
    exact String.utf8EncodeChar_ne_nil (List.append_eq_nil_iff.mp h).1

/-- Bytes are a text exactly if they are its UTF-8. -/
theorem fromUTF8?_eq_some_iff {bytes : List UInt8} {text : String} :
    String.fromUTF8? bytes.toByteArray = some text ↔ bytes = encode text.toList := by
  have hencode : text.toByteArray = (encode text.toList).toByteArray :=
    (String.utf8Encode_toList (b := text)).symm
  constructor
  · intro h
    unfold String.fromUTF8? at h
    split at h
    · cases h
      have hbytes := congrArg (fun bytes => bytes.data.toList) hencode
      simpa [String.fromUTF8] using hbytes
    · cases h
  · rintro rfl
    unfold String.fromUTF8?
    rw [← hencode, dif_pos text.isValidUTF8]
    rfl

/-- A byte below 128 in the UTF-8 of a character is the whole of it: the bytes of a longer one
    all have their highest bit set. -/
theorem toNat_eq_of_mem_utf8EncodeChar {char : Char} {byte : UInt8}
    (hmem : byte ∈ String.utf8EncodeChar char) (hascii : byte.toNat < 128) :
    char.toNat = byte.toNat := by
  have htoNat : char.val.toNat = char.toNat := rfl
  unfold String.utf8EncodeChar at hmem
  simp only [htoNat] at hmem
  split at hmem
  · rw [List.mem_singleton.mp hmem, UInt8.toNat_ofNat', Nat.mod_eq_of_lt (by omega)]
  · exfalso
    split at hmem
    · simp only [List.mem_cons, List.not_mem_nil, or_false] at hmem
      rcases hmem with rfl | rfl <;> rw [UInt8.toNat_ofNat'] at hascii <;> omega
    · split at hmem <;> simp only [List.mem_cons, List.not_mem_nil, or_false] at hmem
      · rcases hmem with rfl | rfl | rfl <;> rw [UInt8.toNat_ofNat'] at hascii <;> omega
      · rcases hmem with rfl | rfl | rfl | rfl <;> rw [UInt8.toNat_ofNat'] at hascii <;> omega

theorem not_mem_utf8EncodeChar {char ascii : Char} (hne : char ≠ ascii)
    {byte : UInt8} (hbyte : byte.toNat = ascii.toNat) (hascii : ascii.toNat < 128) :
    byte ∉ String.utf8EncodeChar char := fun hmem =>
  hne (Char.toNat_inj.mp (by
    rw [toNat_eq_of_mem_utf8EncodeChar hmem (by omega), hbyte]))

/-! ### Cutting at line feeds -/

/-- The pieces of a stream are its parts between line feeds. -/
theorem pieces_eq_splitOn (bytes : List UInt8) : pieces bytes = bytes.splitOn lineFeed := by
  unfold pieces
  induction bytes with
  | nil => rfl
  | cons byte bytes ih =>
    rw [List.splitOn_cons_eq_if_modifyHead, List.foldr_cons, ih]
    by_cases hbyte : byte = lineFeed
    · rw [if_pos hbyte, if_pos (by simpa using hbyte)]
    · rw [if_neg hbyte, if_neg (by simpa using hbyte)]
      cases hpieces : bytes.splitOn lineFeed with
      | nil => exact absurd hpieces (List.splitOn_ne_nil _ _)
      | cons piece more => rfl

theorem splitOn_append_of_not_mem {before : List UInt8} (hnone : lineFeed ∉ before)
    (bytes : List UInt8) :
    (before ++ bytes).splitOn lineFeed = (bytes.splitOn lineFeed).modifyHead (before ++ ·) := by
  induction before with
  | nil =>
    rw [List.nil_append]
    cases bytes.splitOn lineFeed with
    | nil => rfl
    | cons piece more => rfl
  | cons byte before ih =>
    rw [List.mem_cons, not_or] at hnone
    rw [List.cons_append, List.splitOn_cons_eq_if_modifyHead,
      if_neg (by simpa using Ne.symm hnone.1), ih hnone.2, List.modifyHead_modifyHead]
    rfl

/-- Cutting the bytes of a text at line feeds is cutting the text there. -/
theorem splitOn_encode (text : List Char) :
    (encode text).splitOn lineFeed = (text.splitOn '\n').map encode := by
  induction text with
  | nil => rfl
  | cons char text ih =>
    rw [encode_cons, List.splitOn_cons_eq_if_modifyHead]
    by_cases hchar : char = '\n'
    · subst hchar
      have hbyte : String.utf8EncodeChar '\n' = [lineFeed] := by decide
      rw [hbyte, List.singleton_append, List.splitOn_cons_eq_if_modifyHead, if_pos (by rfl),
        if_pos (by rfl), ih]
      rfl
    · rw [splitOn_append_of_not_mem (not_mem_utf8EncodeChar hchar (by rfl) (by decide)), ih,
        if_neg (by simpa using hchar)]
      cases text.splitOn '\n' with
      | nil => rfl
      | cons piece more => rfl

/-! ### Carriage returns -/

/-- Characters without the carriage return at their end. -/
def withoutReturn (line : List Char) : List Char :=
  if line.getLast? = some '\r' then line.dropLast else line

theorem dropReturn_encode (line : List Char) :
    dropReturn (encode line) = encode (withoutReturn line) := by
  rcases line.eq_nil_or_concat with rfl | ⟨before, char, rfl⟩
  · rfl
  have hsingle : encode (before ++ [char]) = encode before ++ String.utf8EncodeChar char := by
    rw [encode_append]
    exact congrArg (encode before ++ ·) (List.append_nil _)
  unfold dropReturn withoutReturn
  rw [List.concat_eq_append, hsingle, List.getLast?_concat, List.dropLast_concat]
  by_cases hchar : char = '\r'
  · subst hchar
    have hbyte : String.utf8EncodeChar '\r' = [carriageReturn] := by decide
    rw [hbyte, List.getLast?_concat, if_pos rfl, if_pos rfl, List.dropLast_concat]
  · rw [if_neg (fun h => ?_), if_neg (fun h => hchar (Option.some.inj h)), hsingle]
    rw [List.getLast?_append, List.getLast?_eq_some_getLast String.utf8EncodeChar_ne_nil] at h
    exact not_mem_utf8EncodeChar hchar (by rfl) (by decide) (Option.some.inj h ▸ List.getLast_mem _)

/-! ### Lines -/

/-- The lines of some characters: what comes before each line feed, without a carriage return
    there, and what comes after the last, unless it is empty. -/
def charLines (text : List Char) : List (List Char) :=
  let pieces := text.splitOn '\n'
  pieces.dropLast.map withoutReturn ++ [pieces.getLastD []].filter (· ≠ [])

/-- The lines of a text. -/
def textLines (text : String) : List String := (charLines text.toList).map String.ofList

example : textLines "1\r\n\n+2" = ["1", "", "+2"] := by decide

/-- Each line of a text is a text, and it is the line that cutting the text gives. -/
theorem lines_encode (text : List Char) : lines (encode text) = (charLines text).map encode := by
  have hended : endedLines (encode text) =
      (((text.splitOn '\n').dropLast.map withoutReturn).map encode,
        encode ((text.splitOn '\n').getLastD [])) := by
    unfold endedLines
    rw [pieces_eq_splitOn, splitOn_encode, ← List.map_dropLast, List.map_map, List.map_map]
    congr 1
    · exact List.map_congr_left fun line _ => dropReturn_encode line
    · exact List.getLastD_map (f := encode) (a := [])
  unfold lines charLines
  rw [hended, List.map_append]
  dsimp only
  by_cases hlast : (text.splitOn '\n').getLastD [] = []
  · rw [if_pos (encode_eq_nil_iff.mpr hlast), hlast]
    exact (List.append_nil _).symm
  · rw [if_neg (fun h => hlast (encode_eq_nil_iff.mp h)),
      List.filter_cons_of_pos (by simpa using hlast)]
    rfl

section Readings

variable {α : Type} {f : Char → Option α}

theorem flatMap_filterMap_splitOn (hfeed : f '\n' = none) (text : List Char) :
    (text.splitOn '\n').flatMap (List.filterMap f) = text.filterMap f := by
  induction text with
  | nil => rfl
  | cons char text ih =>
    rw [List.splitOn_cons_eq_if_modifyHead, List.filterMap_cons]
    by_cases hchar : char = '\n'
    · subst hchar
      rw [if_pos (by rfl), hfeed, List.flatMap_cons, ih]
      rfl
    · rw [if_neg (by simpa using hchar)]
      cases hsplit : text.splitOn '\n' with
      | nil => exact absurd hsplit (List.splitOn_ne_nil _ _)
      | cons piece more =>
        rw [hsplit] at ih
        rw [List.modifyHead_cons, List.flatMap_cons, List.filterMap_cons, ← ih, List.flatMap_cons]
        cases f char <;> rfl

theorem filterMap_withoutReturn (hreturn : f '\r' = none) (line : List Char) :
    (withoutReturn line).filterMap f = line.filterMap f := by
  unfold withoutReturn
  split
  case isTrue h =>
    obtain ⟨before, rfl⟩ := List.getLast?_eq_some_iff.mp h
    rw [List.dropLast_concat, List.filterMap_append, List.filterMap_cons_none hreturn,
      List.filterMap_nil, List.append_nil]
  case isFalse => rfl

/-- A reading of the characters one by one that passes over line feeds and carriage returns reads
    the lines of a text as it reads the text. -/
theorem flatMap_filterMap_charLines (hfeed : f '\n' = none) (hreturn : f '\r' = none)
    (text : List Char) : (charLines text).flatMap (List.filterMap f) = text.filterMap f := by
  have hlast : ∀ line : List Char,
      ([line].filter (· ≠ [])).flatMap (List.filterMap f) = [line].flatMap (List.filterMap f) := by
    intro line
    cases line <;> rfl
  have hne : text.splitOn '\n' ≠ [] := List.splitOn_ne_nil _ _
  have hgetLast : (text.splitOn '\n').getLastD [] = (text.splitOn '\n').getLast hne := by
    rw [List.getLastD_eq_getLast?, List.getLast?_eq_some_getLast hne, Option.getD_some]
  unfold charLines
  dsimp only
  rw [hgetLast, List.flatMap_append, List.flatMap_map, hlast]
  simp only [filterMap_withoutReturn hreturn]
  rw [← List.flatMap_append, List.dropLast_concat_getLast, flatMap_filterMap_splitOn hfeed]

end Readings

end DeskCalculator
