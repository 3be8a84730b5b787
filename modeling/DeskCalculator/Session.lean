import DeskCalculator.Calculator

/-!
# Sessions

A session types a stream of bytes on a calculator, line by line, and shows the
screen after each line.  Typing a line does not evaluate it; only `=` does.

Lines end at a line feed, and a carriage return right before it belongs to the line
end.  What follows the last line feed is a line too, unless it is empty.  Each
line has to be UTF-8: the first that is not ends the session.

The stream need not be there as a whole.  A conversation takes it in part by part, wherever
it is cut, and has a screen to show as soon as a line has ended.
-/

namespace DeskCalculator

/-! ### Lines -/

def lineFeed : UInt8 := 10

def carriageReturn : UInt8 := 13

/-- The pieces between line feeds, one more than there are line feeds. -/
def pieces (bytes : List UInt8) : List (List UInt8) :=
  bytes.foldr (fun byte pieces =>
    if byte = lineFeed then [] :: pieces
    else
      match pieces with
      | [] => [[byte]]
      | piece :: more => (byte :: piece) :: more) [[]]

/-- A line that ended with a line feed, without the carriage return before it. -/
def dropReturn (line : List UInt8) : List UInt8 :=
  if line.getLast? = some carriageReturn then line.dropLast else line

/-- The lines that have ended, and the bytes of the one that has not. -/
def endedLines (bytes : List UInt8) : List (List UInt8) × List UInt8 :=
  ((pieces bytes).dropLast.map dropReturn, (pieces bytes).getLastD [])

/-- All lines of a stream that has ended. -/
def lines (bytes : List UInt8) : List (List UInt8) :=
  let (ended, last) := endedLines bytes
  if last = [] then ended else ended ++ [last]

/-! ### A session -/

/-- Why a session stops before the end of its input. -/
inductive InputError where
  | notUtf8
  deriving DecidableEq, Repr

def InputError.message : InputError → String
  | notUtf8 => "stream did not contain valid UTF-8"

/-- How far a session has come. -/
structure Session where
  /-- The calculator as the last line left it. -/
  calculator : Calculator
  /-- The screens shown so far, a line each. -/
  output : String
  /-- How many lines left the calculator in error, or why the session stopped. -/
  errors : Except InputError Nat

namespace Session

def start (c : Calculator) : Session := ⟨c, "", .ok 0⟩

/-- The session when its screens have been written and are not kept. -/
def flushed (s : Session) : Session := { s with output := "" }

/-- The session with screens that were written before its own. -/
def behind (written : String) (s : Session) : Session :=
  { s with output := written ++ s.output }

theorem behind_flushed (s : Session) : s.flushed.behind s.output = s := by
  unfold flushed behind
  rw [String.append_empty]

/-- Whether a line has stopped the session. -/
def stopped (s : Session) : Bool :=
  match s.errors with
  | .ok _ => false
  | .error _ => true

/-- Types one line and shows the screen; a session that has stopped reads no more. -/
def readLine (s : Session) (line : List UInt8) : Session :=
  match s.errors with
  | .error _ => s
  | .ok errors =>
      match String.fromUTF8? line.toByteArray with
      | none => { s with errors := .error .notUtf8 }
      | some text =>
          let calculator := s.calculator.type text
          { calculator
            output := s.output ++ calculator.screen ++ "\n"
            errors := .ok (if calculator.inError then errors + 1 else errors) }

/-- A session that has stopped stays as it is. -/
theorem foldl_readLine_of_error {s : Session} {e : InputError} (herror : s.errors = .error e)
    (more : List (List UInt8)) : more.foldl readLine s = s := by
  induction more with
  | nil => rfl
  | cons line more ih =>
    have hline : s.readLine line = s := by
      unfold readLine
      rw [herror]
    rw [List.foldl_cons, hline, ih]

end Session

/-- The session of a calculator over a whole stream. -/
def Calculator.session (c : Calculator) (input : List UInt8) : Session :=
  (lines input).foldl Session.readLine (.start c)

/-! ### Input that comes in parts -/

/-- A session whose input comes in parts. -/
structure Conversation where
  /-- The session over the lines that have ended, with the screens of the last part only. -/
  session : Session
  /-- The bytes of the line that has not ended. -/
  pending : List UInt8

namespace Conversation

def start (c : Calculator) : Conversation := ⟨.start c, []⟩

/-- Takes in a part of the input: types the lines that have ended with it. -/
def feed (s : Conversation) (part : List UInt8) : Conversation :=
  let (ended, pending) := endedLines (s.pending ++ part)
  ⟨ended.foldl Session.readLine s.session.flushed, pending⟩

/-- Takes in the end of the input: what is pending is a line, unless it is empty. -/
def finish (s : Conversation) : Conversation :=
  ⟨(lines s.pending).foldl Session.readLine s.session.flushed, []⟩

/-- The conversation over some parts and the end of the input.  Screens are written after each
    part, and behind a line that stops the session no part is taken in. -/
def run (s : Conversation) : List (List UInt8) → Session
  | [] => s.finish.session
  | part :: parts =>
      let next := s.feed part
      if next.session.stopped then next.session
      else (next.run parts).behind next.session.output

end Conversation

end DeskCalculator
