import PostfixCalc.EvalError
import PostfixCalc.Letter
import PostfixCalc.Operator

namespace PostfixCalc

inductive Level where
  | debug | info | warning | error | critical
  deriving DecidableEq

namespace Level

def all : List Level := [.debug, .info, .warning, .error, .critical]

def name : Level → String
  | .debug => "DEBUG"
  | .info => "INFO"
  | .warning => "WARNING"
  | .error => "ERROR"
  | .critical => "CRITICAL"

def severity : Level → Nat
  | .debug => 10
  | .info => 20
  | .warning => 30
  | .error => 40
  | .critical => 50

-- The level of a log that nobody has set up.
def standard : Level := .warning

def ofName? (name : String) : Option Level := all.find? (·.name == name)

end Level

-- What the log tells about.
inductive Record where
  | tokens (texts : List String)
  | operation (op : Operator) (lhs rhs result : Binary64)
  | assignment (name : String) (value : Binary64)
  | failed (line : String) (error : EvalError)
  | batchStarted (count : Nat)
  | batchFailed (failures count : Nat)
  | loopStarted (interactive : Bool)
  deriving DecidableEq

namespace Record

def level : Record → Level
  | .tokens _ | .operation .. | .assignment .. | .failed .. => .debug
  | .batchStarted _ | .batchFailed .. | .loopStarted _ => .info

-- The part of the program that speaks.
def source : Record → String
  | .tokens _ | .failed .. => "core.rpn_evaluator"
  | .operation .. => "core.operators"
  | .assignment .. => "core.variables"
  | .batchStarted _ | .batchFailed .. | .loopStarted _ => "main"

def natText (n : Nat) : String := String.ofList (Decimal.natText n)

def text : Record → String
  | .tokens texts => "Tokens: " ++ Text.bracketed "[" "]" (texts.map Text.quoted)
  | .operation op lhs rhs result =>
    lhs.text ++ " " ++ op.symbol ++ " " ++ rhs.text ++ " -> " ++ result.text
  | .assignment name value => name ++ " <- " ++ value.text
  | .failed line error => "Failed to evaluate '" ++ line ++ "': " ++ error.message
  | .batchStarted count => "Evaluating " ++ natText count ++ " expressions"
  | .batchFailed failures count =>
    natText failures ++ " of " ++ natText count ++ " expressions failed"
  | .loopStarted interactive =>
    "Starting line loop (interactive=" ++ (if interactive then "True" else "False") ++ ")"

-- A line of the log, after the time.
def line (record : Record) (time : String) : String :=
  time ++ " - " ++ record.source ++ " - " ++ record.level.name ++ " - " ++ record.text ++ "\n"

end Record

end PostfixCalc
