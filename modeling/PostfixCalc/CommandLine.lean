import PostfixCalc.CommandLine.Usage
import PostfixCalc.Console

namespace PostfixCalc.CommandLine

variable [Power]

-- All that is seen of one call of the program, and its exit code.
structure Outcome where
  exitCode : Nat
  events : List Event
  deriving DecidableEq

-- What the arguments ask for: a call that is over, or a line loop still to be run.
inductive Start where
  | finished (outcome : Outcome)
  | loop (level : Level) (prompt : String) (opening : List Event)

-- What a call breaks off at: something that was used as a text, and is none.
inductive Crash where
  | expression | level
  deriving DecidableEq

-- The last line of what is then written. The lines before it name places in the program.
def Crash.report : Crash → String
  | .expression => "AttributeError: 'list' object has no attribute 'strip'\n"
  | .level => "AttributeError: 'list' object has no attribute 'upper'\n"

-- The expressions up to the first that is no text.
def front : List (Option String) → List String
  | some text :: rest => text :: front rest
  | _ => []

-- All that happens when the expressions are evaluated one after the other. The first that is no
-- text breaks the call off.
def batch (expressions : List (Option String)) : Outcome :=
  let started := .record (.batchStarted expressions.length)
  if none ∈ expressions then
    let run := Machine.initial.answerAll (front expressions)
    ⟨1, started :: (run.events ++ [.error Crash.expression.report])⟩
  else
    let run := Machine.initial.batch (front expressions)
    ⟨run.exitCode, started :: run.events⟩

-- Expressions are evaluated as one batch, and then no input is read. Without expressions the
-- lines of the input are read, with a prompt if it is a terminal.
def start (edition : Edition) (arguments : List String) (terminal : Bool) : Start :=
  match Options.ofArguments edition arguments with
  | .error .help => .finished ⟨0, [.output help]⟩
  | .error (.misuse mistake) => .finished ⟨2, [.error mistake.report]⟩
  | .ok options =>
    match options.level with
    | none => .finished ⟨1, [.error Crash.level.report]⟩
    | some level =>
      if options.expressions = [] then
        .loop level (if terminal && !options.promptHidden then Console.prompt else "")
          [.record (.loopStarted terminal)]
      else
        let outcome := batch options.expressions
        .finished ⟨outcome.exitCode, outcome.events.filter (·.visibleAt level)⟩

-- One call of the program with its whole input.
def run (edition : Edition) (arguments : List String) (input : String) (terminal : Bool) :
    Outcome :=
  match start edition arguments terminal with
  | .finished outcome => outcome
  | .loop level prompt opening =>
    let reads := Console.reads none (Text.lines (Text.unifyLineEnds input))
    let run := Machine.initial.dialogue prompt reads
    ⟨0, (opening ++ run.events).filter (·.visibleAt level)⟩

end PostfixCalc.CommandLine
