import PostfixCalc.Console

namespace PostfixCalc

variable [Power]

-- Takes one line off a text, with its line feed if it has one.
def Text.takeLine : List Char → List Char × List Char
  | [] => ([], [])
  | c :: rest =>
    if c = '\n' then ([c], rest)
    else
      let (line, more) := takeLine rest
      (c :: line, more)

-- The line loop between two of its turns: the input that is left, the machine, all that was seen
-- so far, and the exit code if the loop is over.
structure LineLoop where
  input : List Char
  machine : Machine
  events : List Event
  exitCode : Option Nat

namespace LineLoop

def start (machine : Machine) (text : String) : LineLoop := ⟨text.toList, machine, [], none⟩

-- A line with nothing in it, not even a line feed, is the end of the input.
def turn (prompt : String) (loop : LineLoop) : LineLoop :=
  match loop.exitCode with
  | some _ => loop
  | none =>
    let prompted := loop.events ++ Console.promptEvents prompt
    match Text.takeLine loop.input with
    | ([], _) =>
      { loop with events := prompted ++ Console.farewellEvents prompt, exitCode := some 0 }
    | (line, rest) =>
      let reply := loop.machine.answer (String.ofList line)
      ⟨rest, reply.machine, prompted ++ reply.events, none⟩

-- The loop is over where no line can be read, behind the prompt.
def leave (prompt : String) (loop : LineLoop) : LineLoop :=
  match loop.exitCode with
  | some _ => loop
  | none =>
    let prompted := loop.events ++ Console.promptEvents prompt
    { loop with events := prompted ++ Console.farewellEvents prompt, exitCode := some 0 }

end LineLoop

-- The line loop with an interrupt that comes after so many reads, in place of the next one, or
-- never.
structure InterruptedLoop where
  loop : LineLoop
  patience : Option Nat

namespace InterruptedLoop

def start (machine : Machine) (text : String) (patience : Option Nat) : InterruptedLoop :=
  ⟨.start machine text, patience⟩

def turn (prompt : String) (state : InterruptedLoop) : InterruptedLoop :=
  if state.patience = some 0 then { state with loop := state.loop.leave prompt }
  else ⟨state.loop.turn prompt, state.patience.map (· - 1)⟩

end InterruptedLoop

end PostfixCalc
