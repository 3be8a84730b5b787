import DeskCalculator.Proofs.SpoiltLine

/-!
# Input in parts

A conversation takes in its input part by part.  A part may end anywhere, in the middle of a
character too, and what is pending then is carried to the next one.  However the input is cut,
the conversation comes to the same session, with the same screens
(`Conversation.run_eq_session`).

One part is a matter of lines alone: those that end in it do not depend on what follows, and
what is pending starts what follows (`lines_append_eq`).  The parts are then taken in by induction,
for a conversation that is already under way, whatever is pending.
-/

namespace DeskCalculator

/-! ### Lines of a part -/

/-- The lines that have ended stay as they are when more bytes follow. -/
theorem lines_append_eq (bytes more : List UInt8) :
    lines (bytes ++ more) = (endedLines bytes).1 ++ lines ((endedLines bytes).2 ++ more) := by
  induction bytes using lineInduction with
  | last line hline =>
    rw [endedLines_of_not_mem hline]
    rfl
  | cons line rest hline ih =>
    rw [List.append_assoc, List.cons_append, lines_cons hline, ih, endedLines_append_lineFeed,
      pieces_of_not_mem hline]
    rfl

/-! ### Screens that have been written -/

namespace Session

/-- Screens that were written before have no part in what a line does. -/
theorem readLine_behind (s : Session) (written : String) (line : List UInt8) :
    (s.behind written).readLine line = (s.readLine line).behind written := by
  obtain ⟨calculator, output, errors⟩ := s
  unfold readLine behind
  cases errors with
  | error e => rfl
  | ok errors =>
    dsimp only
    split
    · rfl
    · simp only [String.append_assoc]

theorem foldl_readLine_behind (s : Session) (written : String) (batch : List (List UInt8)) :
    batch.foldl readLine (s.behind written) = (batch.foldl readLine s).behind written := by
  induction batch generalizing s with
  | nil => rfl
  | cons line batch ih => rw [List.foldl_cons, readLine_behind, ih, List.foldl_cons]

theorem foldl_readLine_of_stopped {s : Session} (h : s.stopped = true)
    (batch : List (List UInt8)) : batch.foldl readLine s = s := by
  unfold stopped at h
  cases herrors : s.errors with
  | ok errors =>
    rw [herrors] at h
    cases h
  | error e => exact foldl_readLine_of_error herrors batch

end Session

/-! ### A whole conversation -/

namespace Conversation

/-- Taking in a part reads the lines that have ended with it and leaves the others to come. -/
theorem foldl_lines_feed (s : Conversation) (part more : List UInt8) :
    (lines (s.pending ++ (part ++ more))).foldl Session.readLine s.session.flushed
      = (lines ((s.feed part).pending ++ more)).foldl Session.readLine (s.feed part).session := by
  rw [← List.append_assoc, lines_append_eq, List.foldl_append]
  rfl

/-- From any point on, a conversation reads the lines of what is pending and what is to come. -/
theorem run_eq (s : Conversation) (parts : List (List UInt8)) :
    s.run parts
      = (lines (s.pending ++ parts.flatten)).foldl Session.readLine s.session.flushed := by
  induction parts generalizing s with
  | nil => rw [List.flatten_nil, List.append_nil, run, finish]
  | cons part parts ih =>
    rw [List.flatten_cons, foldl_lines_feed, run]
    split
    · next hstopped => rw [Session.foldl_readLine_of_stopped hstopped]
    · -- the screens of this part were written before those of the next ones
      rw [ih, ← Session.foldl_readLine_behind, Session.behind_flushed]

/-- However its input is cut, a conversation writes the screens of the session over the whole
    input, and ends as it does. -/
theorem run_eq_session (c : Calculator) (parts : List (List UInt8)) :
    (start c).run parts = c.session parts.flatten :=
  (start c).run_eq parts

end Conversation

/-- A call without expressions answers what its conversation comes to. -/
theorem ofRequest_flatten (r : Settings) (parts : List (List UInt8)) :
    Answer.ofRequest parts.flatten (.calculate r [])
      = ⟨Answer.statusOfSession ((Conversation.start (.new r)).run parts),
          ((Conversation.start (.new r)).run parts).output⟩ := by
  rw [Conversation.run_eq_session]
  rfl

/-- A cut inside a character of two bytes, and one inside a line end. -/
example : ((Conversation.start (.new {})).run [[49, 195], [169, 13], [10]]).output
    = "[                       1]\n" := by decide

end DeskCalculator
