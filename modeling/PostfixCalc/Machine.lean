import PostfixCalc.Record
import PostfixCalc.Text.Blank
import PostfixCalc.Token
import PostfixCalc.Bindings

namespace PostfixCalc

-- A stack, top first, and the variables.
structure Machine where
  stack : List Cell
  bindings : Bindings

-- What comes of one token, or of several: the machine afterwards, the error if there was one,
-- and the records, in order. A token that fails leaves the machine without the cells it took.
structure Reaction where
  machine : Machine
  failure : Option EvalError
  records : List Record

-- What comes of a line. A line that leaves the stack empty has no value.
structure Evaluation where
  machine : Machine
  result : Except EvalError (Option Binary64)
  records : List Record

namespace Machine

def initial : Machine := ⟨[], .empty⟩

def reset (machine : Machine) : Machine := { machine with stack := [] }

-- A name is read when its cell is used, not when it is pushed.
def resolve (machine : Machine) : Cell → Except EvalError Binary64
  | .number value => .ok value
  | .reference name => machine.bindings.lookup name
  | .foreign text => .error (.invalidOperand (.foreign text))

def push (machine : Machine) (cell : Cell) : Reaction :=
  ⟨{ machine with stack := cell :: machine.stack }, none, []⟩

def fail (machine : Machine) (error : EvalError) : Reaction := ⟨machine, some error, []⟩

variable [Power]

-- The top of the stack is the right operand. It is resolved first, and an operand is off the
-- stack by the time it is resolved.
def operate (machine : Machine) (op : Operator) : Reaction :=
  match machine.stack with
  | right :: left :: rest =>
    match machine.resolve right with
    | .error error => fail { machine with stack := left :: rest } error
    | .ok rhs =>
      let popped := { machine with stack := rest }
      match machine.resolve left with
      | .error error => fail popped error
      | .ok lhs =>
        match op.compute? lhs rhs with
        | none => fail popped .divisionByZero
        | some value => ⟨(popped.push (.number value)).machine, none, [.operation op lhs rhs value]⟩
  | stack => fail machine (.stackUnderflow op.symbol stack.length)

-- The letter that a cell names.
def target? : Cell → Option Letter
  | .reference name => Letter.ofName? name
  | _ => none

-- The value is on top and its target below. The target is judged first, by its shape alone.
def store (machine : Machine) : Reaction :=
  match machine.stack with
  | source :: target :: rest =>
    let popped := { machine with stack := rest }
    match target? target with
    | none => fail popped (.invalidTarget (.cell target))
    | some letter =>
      match machine.resolve source with
      | .error error => fail popped error
      | .ok value =>
        ⟨{ popped with bindings := machine.bindings.set letter value }, none,
          [.assignment letter.name value]⟩
  | stack => fail machine (.stackUnderflow Token.assignMark stack.length)

def step (machine : Machine) : Token → Reaction
  | .blank => ⟨machine, none, []⟩
  | .number numeral => machine.push (.number numeral.value)
  | .variable letter => machine.push (.reference letter.name)
  | .operator op => machine.operate op
  | .assign => machine.store
  | .unknown text => machine.fail (.unknownToken text)

-- The first failure ends the run.
def run (machine : Machine) : List Token → Reaction
  | [] => ⟨machine, none, []⟩
  | token :: rest =>
    let first := machine.step token
    match first.failure with
    | some _ => first
    | none =>
      let later := first.machine.run rest
      { later with records := first.records ++ later.records }

-- The value on top of the stack, which stays there.
def top (machine : Machine) : Except EvalError (Option Binary64) :=
  match machine.stack with
  | [] => .ok none
  | cell :: _ => (machine.resolve cell).map some

def tokens (line : String) : List Token := (Text.words line).map Token.read

-- A line starts from an empty stack and leaves its own stack behind, whether or not it fails.
def evaluate (machine : Machine) (line : String) : Evaluation :=
  let reaction := machine.reset.run (tokens line)
  let result :=
    match reaction.failure with
    | some error => .error error
    | none => reaction.machine.top
  let last :=
    match result with
    | .error error => [.failed line error]
    | .ok _ => []
  ⟨reaction.machine, result, .tokens (Text.words line) :: (reaction.records ++ last)⟩

end Machine

end PostfixCalc
