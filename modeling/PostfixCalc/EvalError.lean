import PostfixCalc.Cell
import PostfixCalc.Text.Quoted

namespace PostfixCalc

-- How a subject reads inside a message.
def Subject.shown : Subject → String
  | .absent => "None"
  | .truth value => if value then "True" else "False"
  | .integer value => String.ofList (Decimal.intText value)
  | .text value => value
  | .cell (.number value) => "NumberCell(value=" ++ value.text ++ ")"
  | .cell (.reference name) => "VariableRef(name=" ++ Text.quoted name ++ ")"
  | .cell (.foreign content) => content

-- Nothing, an empty text, zero and false say as much as no message.
def Subject.isVoid : Subject → Bool
  | .absent => true
  | .truth value => !value
  | .integer value => value == 0
  | .text value => value == ""
  | .cell (.foreign content) => content == ""
  | .cell _ => false

inductive ErrorKind where
  | evaluation
  | stackUnderflow
  | divisionByZero
  | unassignedVariable
  | invalidOperand
  | invalidTarget
  | unknownToken
  deriving DecidableEq

-- What is told about an error: a description and the particulars that come with its kind.
structure ErrorReport where
  kind : ErrorKind
  description : Subject
  details : List (String × Subject)

namespace ErrorKind

def headline : ErrorKind → String
  | .evaluation => "Evaluation error"
  | .stackUnderflow => "Stack underflow"
  | .divisionByZero => "Division by zero"
  | .unassignedVariable => "Unassigned variable"
  | .invalidOperand => "Invalid operation or operand"
  | .invalidTarget => "Invalid variable"
  | .unknownToken => "Unknown token"

def subjectNames : ErrorKind → List String
  | .evaluation => []
  | .stackUnderflow => ["token", "depth"]
  | .divisionByZero => []
  | .unassignedVariable => ["name"]
  | .invalidOperand => ["operand"]
  | .invalidTarget => ["target"]
  | .unknownToken => ["token"]

def plain (kind : ErrorKind) (subjects : List Subject) : ErrorReport :=
  ⟨kind, .text kind.headline, kind.subjectNames.zip subjects⟩

-- The description ends with the subject.
def naming (kind : ErrorKind) (subject : Subject) : ErrorReport :=
  ⟨kind, .text (kind.headline ++ ": " ++ subject.shown), kind.subjectNames.zip [subject]⟩

-- A message of one's own replaces the headline, unless it says nothing.
def described (kind : ErrorKind) (message : Subject) : ErrorReport :=
  ⟨kind, if message.isVoid then .text kind.headline else message, []⟩

-- The report about some subjects. Missing subjects are absent, and a missing depth is zero.
def report (kind : ErrorKind) (subjects : List Subject) : ErrorReport :=
  let first := subjects.getD 0 .absent
  match kind with
  | .evaluation | .divisionByZero => kind.described first
  | .stackUnderflow => kind.plain [first, subjects.getD 1 (.integer 0)]
  | .unassignedVariable | .unknownToken => kind.naming first
  | .invalidOperand | .invalidTarget => kind.plain [first]

end ErrorKind

def ErrorReport.message (report : ErrorReport) : String := report.description.shown

-- Why a line has no result.
inductive EvalError where
  | stackUnderflow (token : String) (depth : Nat)
  | divisionByZero
  | unassignedVariable (name : String)
  | invalidOperand (operand : Cell)
  | invalidTarget (target : Subject)
  | unknownToken (token : String)
  deriving DecidableEq

namespace EvalError

def report : EvalError → ErrorReport
  | .stackUnderflow token depth => ErrorKind.report .stackUnderflow [.text token, .integer depth]
  | .divisionByZero => ErrorKind.report .divisionByZero []
  | .unassignedVariable name => ErrorKind.report .unassignedVariable [.text name]
  | .invalidOperand operand => ErrorKind.report .invalidOperand [.cell operand]
  | .invalidTarget target => ErrorKind.report .invalidTarget [target]
  | .unknownToken token => ErrorKind.report .unknownToken [.text token]

def message (error : EvalError) : String := error.report.message

end EvalError

-- Why a direct call has no result.
inductive CallError where
  | evaluation (error : EvalError)
  | overflow
  | noNumber (complaint : String)
  | unknownSymbol (symbol : String)
  deriving DecidableEq

def CallError.message : CallError → String
  | .evaluation error => error.message
  | .overflow => "int too large to convert to float"
  | .noNumber complaint => complaint
  | .unknownSymbol symbol => Text.quoted symbol

end PostfixCalc
