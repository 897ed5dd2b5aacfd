import PostfixCalc.Console

namespace PostfixCalc

-- The choices that the calculator is built with, as data that can be shown and checked.
structure Settings where
  numberPattern : String
  variablePattern : String
  assignMark : String
  operatorSymbols : List String
  prompt : String
  farewell : String
  resultBrackets : List String
  errorMark : String
  level : String
  recordFormat : String

-- What can be wrong with the choices, in the order in which it is looked for.
inductive SettingsFault where
  | operatorSet
  | operatorTwice
  | markIsOperator
  | brackets
  | level
  deriving DecidableEq

def SettingsFault.message : SettingsFault → String
  | .operatorSet => "只支持 + - * / % ^ 六个操作符"
  | .operatorTwice => "操作符不能重复"
  | .markIsOperator => "赋值符号不能同时是操作符"
  | .brackets => "结果括号必须成对"
  | .level => ""

namespace Settings

def knownSymbols : List String := Operator.all.map Operator.symbol

def standard : Settings where
  numberPattern := Numeral.pattern.text
  variablePattern := Letter.pattern.text
  assignMark := Token.assignMark
  operatorSymbols := knownSymbols
  prompt := Console.prompt
  farewell := Console.farewell
  resultBrackets := [Console.openBracket, Console.closeBracket]
  errorMark := Console.errorMark
  level := Level.standard.name
  recordFormat := "%(asctime)s - %(name)s - %(levelname)s - %(message)s"

def hasKnownSymbols (settings : Settings) : Bool :=
  settings.operatorSymbols.all knownSymbols.contains &&
    knownSymbols.all settings.operatorSymbols.contains

-- The symbols, as a set, are the six known ones and none comes twice, the assignment mark is none
-- of them, the brackets are a pair, and the level has a name.
def check (settings : Settings) : Except SettingsFault Unit := do
  unless settings.hasKnownSymbols do throw .operatorSet
  unless settings.operatorSymbols.Nodup do throw .operatorTwice
  if settings.operatorSymbols.contains settings.assignMark then throw .markIsOperator
  unless settings.resultBrackets.length = 2 do throw .brackets
  unless (Level.ofName? settings.level).isSome do throw .level

-- The fixed symbols and what they are. The assignment mark overrides an operator.
def tokenKinds (settings : Settings) : List (String × TokenKind) :=
  (settings.operatorSymbols.filter (· != settings.assignMark)).map (·, .operator) ++
    [(settings.assignMark, .assign)]

-- A symbol and what it computes.
def entryOf (symbol : String) : Except CallError (String × Operator) :=
  match Operator.ofSymbol? symbol with
  | some op => .ok (symbol, op)
  | none => .error (.unknownSymbol symbol)

-- There is no table of the operators if one of the symbols computes nothing.
def operators (settings : Settings) : Except CallError (List (String × Operator)) :=
  settings.operatorSymbols.mapM entryOf

end Settings

end PostfixCalc
