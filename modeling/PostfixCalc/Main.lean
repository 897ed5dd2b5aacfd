import PostfixCalc.CommandLine
import Std.Time.Format

namespace PostfixCalc

-- The time of a record, to the millisecond.
def currentTime : IO String := do
  let now ← Std.Time.PlainDateTime.now
  return now.format "uuuu-MM-dd HH:mm:ss,SSS"

def emit (events : List Event) : IO Unit := do
  let output ← IO.getStdout
  let error ← IO.getStderr
  for event in events do
    output.putStr event.outputText
    output.flush
    error.putStr (event.errorText (← currentTime))

-- Answers each line as it comes in. The prompt for the first line has been written before.
partial def answerLines (level : Level) (prompt : String) (machine : Machine) : IO Unit := do
  let input ← (← IO.getStdin).getLine
  if input = "" then emit (Console.farewellEvents prompt)
  else
    let mut current := machine
    for line in Text.lines (Text.unifyLineEnds input) do
      let reply := current.answer line
      emit (reply.events.filter (·.visibleAt level) ++ Console.promptEvents prompt)
      current := reply.machine
    answerLines level prompt current

end PostfixCalc

open PostfixCalc in
def main (arguments : List String) : IO UInt32 := do
  let terminal ← (← IO.getStdin).isTty
  match CommandLine.start .standard arguments terminal with
  | .finished outcome =>
    emit outcome.events
    return outcome.exitCode.toUInt32
  | .loop level prompt opening =>
    emit (opening.filter (·.visibleAt level) ++ Console.promptEvents prompt)
    answerLines level prompt .initial
    return 0
