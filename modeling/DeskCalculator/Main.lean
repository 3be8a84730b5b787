import DeskCalculator.CommandLine

/-!
The program: reads arguments and standard input, and writes what the library answers.
-/

open DeskCalculator

namespace DeskCalculator.Main

/-- Holds a conversation on standard input, up to its end or a line that stops the session. -/
partial def converse (input output : IO.FS.Stream) (s : Conversation) : IO Session := do
  let part ← input.read 4096
  let next := if part.isEmpty then s.finish else s.feed part.data.toList
  output.putStr next.session.output
  output.flush
  if part.isEmpty || next.session.stopped then pure next.session
  else converse input output next

end DeskCalculator.Main

def main (arguments : List String) : IO UInt32 := do
  let output ← IO.getStdout
  match Request.ofArguments arguments with
  | .calculate settings [] =>
      let session ← Main.converse (← IO.getStdin) output (.start (.new settings))
      match session.errors with
      | .ok _ => pure ()
      | .error e => (← IO.getStderr).putStrLn e.message
      pure (UInt32.ofNat (Answer.statusOfSession session))
  | request =>
      if request = .misuse then (← IO.getStderr).putStr usage
      let answer := Answer.ofRequest [] request
      output.putStr answer.output
      pure (UInt32.ofNat answer.status)
