import PostfixCalc.Machine
import PostfixCalc.Text.Lines

namespace PostfixCalc

-- What the program lets be seen, in the order in which it happens.
inductive Event where
  | output (text : String)
  | error (text : String)
  | record (entry : Record)
  deriving DecidableEq

namespace Event

-- A level hides the records of lesser severity and nothing else.
def visibleAt (level : Level) : Event → Bool
  | .record entry => level.severity ≤ entry.level.severity
  | _ => true

def outputText : Event → String
  | .output text => text
  | _ => ""

-- Errors and records share one stream; every record carries the time.
def errorText (time : String) : Event → String
  | .output _ => ""
  | .error text => text
  | .record entry => entry.line time

end Event

namespace Console

def outputText (events : List Event) : String := String.join (events.map Event.outputText)

def errorText (time : String) (events : List Event) : String :=
  String.join (events.map (Event.errorText time))

-- The events that are seen at the standard level.
def shown (events : List Event) : List Event := events.filter (·.visibleAt .standard)

def prompt : String := "> "

def farewell : String := "\nBye!"

def openBracket : String := "["

def closeBracket : String := "]"

def errorMark : String := "Error:"

def resultText (value : Binary64) : String := openBracket ++ value.display ++ closeBracket

def reportText (message : String) : String := errorMark ++ " " ++ message

end Console

variable [Power]

-- What comes of one line at the console.
structure Reply where
  machine : Machine
  succeeded : Bool
  events : List Event

-- A line is answered with its value, or nothing if it has none. An error is reported and clears
-- the stack.
def Machine.answer (machine : Machine) (line : String) : Reply :=
  let evaluation := machine.evaluate line
  let records := evaluation.records.map Event.record
  match evaluation.result with
  | .error error =>
    ⟨evaluation.machine.reset, false,
      records ++ [.error (Console.reportText error.message ++ "\n")]⟩
  | .ok none => ⟨evaluation.machine, true, records⟩
  | .ok (some value) =>
    ⟨evaluation.machine, true, records ++ [.output (Console.resultText value ++ "\n")]⟩

-- What comes of several lines: how many of them failed, and all that was seen.
structure Run where
  machine : Machine
  failures : Nat
  events : List Event

namespace Run

-- Puts the reply to one line in front of a run of later lines.
def cons (opening : List Event) (first : Reply) (later : Run) : Run :=
  ⟨later.machine, (if first.succeeded then 0 else 1) + later.failures,
    opening ++ first.events ++ later.events⟩

-- A run fails if one of its lines does.
def exitCode (run : Run) : Nat := if run.failures = 0 then 0 else 1

end Run

namespace Machine

-- The variables carry over from line to line; a failed line does not stop the others.
def answerAll (machine : Machine) : List String → Run
  | [] => ⟨machine, 0, []⟩
  | line :: rest =>
    let first := machine.answer line
    Run.cons [] first (first.machine.answerAll rest)

-- A batch of expressions. Failures are counted in the log.
def batch (machine : Machine) (expressions : List String) : Run :=
  let run := machine.answerAll expressions
  if run.failures = 0 then run
  else { run with events := run.events ++ [.record (.batchFailed run.failures expressions.length)] }

end Machine

-- What an attempt to read a line can bring.
inductive Read where
  | line (text : String)
  | endOfInput
  | interrupt

namespace Console

-- The reads of some lines, with an interrupt after so many of them or none at all.
def reads : Option Nat → List String → List Read
  | some 0, _ => [.interrupt]
  | _, [] => [.endOfInput]
  | none, line :: rest => .line line :: reads none rest
  | some (count + 1), line :: rest => .line line :: reads (some count) rest

-- An empty prompt is no prompt.
def promptEvents (prompt : String) : List Event := if prompt = "" then [] else [.output prompt]

def farewellEvents (prompt : String) : List Event :=
  if prompt = "" then [] else [.output (farewell ++ "\n")]

end Console

-- The prompt comes before every read. The first read that brings no line ends the dialogue.
def Machine.dialogue (prompt : String) (machine : Machine) : List Read → Run
  | .line text :: rest =>
    let first := machine.answer text
    Run.cons (Console.promptEvents prompt) first (first.machine.dialogue prompt rest)
  | _ => ⟨machine, 0, Console.promptEvents prompt ++ Console.farewellEvents prompt⟩

end PostfixCalc
