import PostfixCalc.CommandLine

namespace PostfixCalc

-- What changes while a call goes on: the machine, and all that has been written so far.
structure World where
  machine : Machine
  written : List Event

namespace Logged

-- The program once more, with a log that is written as it goes: each record is put up, or dropped,
-- at the moment it arises, and nothing is taken away afterwards.
abbrev Action (α : Type) := StateM World α

-- An action that an error may end. What it has changed and written stays.
abbrev Attempt (ε α : Type) := ExceptT ε (StateM World) α

def write (event : Event) : Action Unit :=
  modify fun world => { world with written := world.written ++ [event] }

def change (next : Machine → Machine) : Action Unit :=
  modify fun world => { world with machine := next world.machine }

def setStack (stack : List Cell) : Action Unit := change fun machine => { machine with stack := stack }

variable [Power] (level : Level)

def note (entry : Record) : Action Unit :=
  if level.severity ≤ entry.level.severity then write (.record entry) else return

def resolve (cell : Cell) : Attempt EvalError Binary64 := do
  match (← get).machine.resolve cell with
  | .ok value => return value
  | .error error => throw error

def compute (op : Operator) (lhs rhs : Binary64) : Attempt EvalError Binary64 := do
  match op.compute? lhs rhs with
  | none => throw .divisionByZero
  | some value => do
    note level (.operation op lhs rhs value)
    return value

def assign (letter : Letter) (value : Binary64) : Action Unit := do
  change fun machine => { machine with bindings := machine.bindings.set letter value }
  note level (.assignment letter.name value)

def operate (op : Operator) : Attempt EvalError Unit := do
  match (← get).machine.stack with
  | right :: left :: rest => do
    setStack (left :: rest)
    let rhs ← resolve right
    setStack rest
    let lhs ← resolve left
    let value ← compute level op lhs rhs
    setStack (.number value :: rest)
  | stack => throw (.stackUnderflow op.symbol stack.length)

def store : Attempt EvalError Unit := do
  match (← get).machine.stack with
  | source :: target :: rest => do
    setStack rest
    match Machine.target? target with
    | none => throw (.invalidTarget (.cell target))
    | some letter => do
      let value ← resolve source
      assign level letter value
  | stack => throw (.stackUnderflow Token.assignMark stack.length)

def push (cell : Cell) : Action Unit := change fun machine => (machine.push cell).machine

def handle : Token → Attempt EvalError Unit
  | .blank => return
  | .number numeral => push (.number numeral.value)
  | .variable letter => push (.reference letter.name)
  | .operator op => operate level op
  | .assign => store level
  | .unknown text => throw (.unknownToken text)

def top : Attempt EvalError (Option Binary64) := do
  match (← get).machine.stack with
  | [] => return none
  | cell :: _ => return some (← resolve cell)

-- A failure is noted and goes on to whoever asked for the line.
def evaluate (line : String) : Attempt EvalError (Option Binary64) := do
  change Machine.reset
  note level (.tokens (Text.words line))
  tryCatch
    (do
      (Machine.tokens line).forM (handle level)
      top)
    fun error => do
      note level (.failed line error)
      throw error

-- Whether the line went through.
def answer (line : String) : Action Bool := do
  match ← (evaluate level line).run with
  | .error error => do
    write (.error (Console.reportText error.message ++ "\n"))
    change Machine.reset
    return false
  | .ok none => return true
  | .ok (some value) => do
    write (.output (Console.resultText value ++ "\n"))
    return true

-- How many of the expressions failed.
def answerAll : List (Option String) → Attempt CommandLine.Crash Nat
  | [] => return 0
  | none :: _ => throw .expression
  | some line :: rest => do
    let succeeded ← answer level line
    let failures ← answerAll rest
    return (if succeeded then 0 else 1) + failures

-- The exit code of a batch.
def batch (expressions : List (Option String)) : Attempt CommandLine.Crash Nat := do
  let failures ← answerAll level expressions
  if failures = 0 then return 0
  else
    note level (.batchFailed failures expressions.length)
    return 1

def dialogue (prompt : String) : List Read → Action Unit
  | .line text :: rest => do
    (Console.promptEvents prompt).forM write
    let _ ← answer level text
    dialogue prompt rest
  | _ => do
    (Console.promptEvents prompt).forM write
    (Console.farewellEvents prompt).forM write

-- The exit code of a call with these options.
def perform (options : CommandLine.Options) (input : String) (terminal : Bool) :
    Attempt CommandLine.Crash Nat := do
  match options.level with
  | none => throw .level
  | some level =>
    if options.expressions = [] then
      note level (.loopStarted terminal)
      dialogue level
        (if terminal && !options.promptHidden then Console.prompt else "")
        (Console.reads none (Text.lines (Text.unifyLineEnds input)))
      return 0
    else
      note level (.batchStarted options.expressions.length)
      batch level options.expressions

-- What a call breaks off at is reported last.
def call (options : CommandLine.Options) (input : String) (terminal : Bool) : Action Nat := do
  match ← (perform options input terminal).run with
  | .ok exitCode => return exitCode
  | .error crash => do
    write (.error crash.report)
    return 1

def run (edition : CommandLine.Edition) (arguments : List String) (input : String)
    (terminal : Bool) : CommandLine.Outcome :=
  match CommandLine.Options.ofArguments edition arguments with
  | .error .help => ⟨0, [.output CommandLine.help]⟩
  | .error (.misuse mistake) => ⟨2, [.error mistake.report]⟩
  | .ok options =>
    let (exitCode, world) := (call options input terminal).run ⟨.initial, []⟩
    ⟨exitCode, world.written⟩

end Logged

end PostfixCalc
