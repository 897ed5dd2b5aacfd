import PostfixCalc.Binary64.Reading
import PostfixCalc.Settings

namespace PostfixCalc

-- What can stop an action: an error of a call, or an operation that had nothing to work on.
inductive Breakdown where
  | call (error : CallError)
  | emptyStack
  | noDecimal (text : String)
  | noWhole (value : Binary64)
  | noPair (brackets : List String)
  deriving DecidableEq

namespace Unguarded

-- The machine once more, put together from operations that do not look before they act. Taking a
-- cell may find the stack empty, a text may be no decimal, a symbol may have no operator, a number
-- may be too large to convert, and what is to be shown as a whole number may not be one. What an
-- action has changed stays when it stops.
abbrev Action (α : Type) := ExceptT Breakdown (StateM Machine) α

def stop {α : Type} (error : EvalError) : Action α := throw (.call (.evaluation error))

def put (cell : Cell) : Action Unit :=
  modify fun machine => { machine with stack := cell :: machine.stack }

def take : Action Cell := do
  match (← get).stack with
  | [] => throw .emptyStack
  | cell :: rest =>
    modify fun machine => { machine with stack := rest }
    return cell

def require (text : String) : Action Unit := do
  let depth := (← get).stack.length
  if depth < 2 then stop (.stackUnderflow text depth)

def lift {α : Type} : Except CallError α → Action α
  | .ok value => return value
  | .error error => throw (.call error)

def resolve : Cell → Action Binary64
  | .number value => return value
  | .reference name => do
    match (← get).bindings.lookup name with
    | .ok value => return value
    | .error error => stop error
  | .foreign text => stop (.invalidOperand (.foreign text))

def read (text : String) : Action Binary64 :=
  match Binary64.ofText? text with
  | some value => return value
  | none => throw (.noDecimal text)

variable [Power]

-- The table of the operators is not the one by which tokens are told apart.
def apply (symbol : String) (lhs rhs : Binary64) : Action Binary64 := do
  let operators ← lift Settings.standard.operators
  match operators.lookup symbol with
  | some op => lift (op.call (.binary lhs) (.binary rhs))
  | none => throw (.call (.unknownSymbol symbol))

def assign (name : String) (value : Binary64) : Action Unit := do
  let bindings ← lift ((← get).bindings.assign (.text name) (.binary value))
  modify fun machine => { machine with bindings := bindings }

-- An assignment from outside. The name is judged, then the value is converted, and only then is
-- anything written.
def enter (name : Subject) (value : Quantity) : Action Unit :=
  match Bindings.target? name with
  | none => stop (.invalidTarget name)
  | some letter => do
    let converted ← lift value.toBinary64
    modify fun machine => { machine with bindings := machine.bindings.set letter converted }

def classify (text : String) : TokenKind :=
  if text = "" then .empty
  else if Token.isNumber text then .number
  else if Settings.standard.tokenKinds.lookup text = some .operator then .operator
  else if Token.isAssign text then .assign
  else if Token.isVariable text then .variable
  else .unknown

def operate (symbol : String) : Action Unit := do
  require symbol
  let rhs ← resolve (← take)
  let lhs ← resolve (← take)
  put (.number (← apply symbol lhs rhs))

def store (mark : String) : Action Unit := do
  require mark
  let source ← take
  let target ← take
  match target with
  | .reference name =>
    if Token.isVariable name then assign name (← resolve source)
    else stop (.invalidTarget (.cell target))
  | _ => stop (.invalidTarget (.cell target))

def handle (text : String) : Action Unit :=
  match classify text with
  | .empty => return
  | .number => do put (.number (← read text))
  | .operator => operate text
  | .assign => store text
  | .variable => put (.reference text)
  | .unknown => stop (.unknownToken text)

def evaluate (line : String) : Action (Option Binary64) := do
  modify Machine.reset
  (Text.words line).forM handle
  match (← get).stack with
  | [] => return none
  | cell :: _ => return some (← resolve cell)

-- What is left of a number without the places behind its point.
def truncate : Binary64 → Action Int
  | .finite negative rank =>
    let whole := Binary64.quanta rank / Binary64.oneQuanta
    return if negative then -(whole : Int) else whole
  | value => throw (.noWhole value)

def display (value : Binary64) : Action String :=
  if value = .nan then return "NaN"
  else if value = .infinity false then return "Infinity"
  else if value = .infinity true then return "-Infinity"
  else if value.isInteger && value.isBelow Binary64.wholeLimit then do
    return String.ofList (Decimal.intText (← truncate value))
  else return value.text

def bracket (text : String) : Action String :=
  match Settings.standard.resultBrackets with
  | [left, right] => return left ++ text ++ right
  | brackets => throw (.noPair brackets)

-- Only the errors of evaluation are caught. Whatever else stops a line stops the program.
def attempt (line : String) : Action (Except EvalError (Option Binary64)) :=
  tryCatch
    (do return .ok (← evaluate line))
    fun
    | .call (.evaluation error) => return .error error
    | other => throw other

-- Whether the line went through, and what is shown of it.
def answer (line : String) : Action (Bool × List Event) := do
  match ← attempt line with
  | .error error => do
    modify Machine.reset
    return (false, [.error (Console.reportText error.message ++ "\n")])
  | .ok none => return (true, [])
  | .ok (some value) => do
    let text ← bracket (← display value)
    return (true, [.output (text ++ "\n")])

end Unguarded

end PostfixCalc
