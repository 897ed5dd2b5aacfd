import PostfixCalc.EvalError
import PostfixCalc.Letter
import PostfixCalc.Numeral
import PostfixCalc.Operator

namespace PostfixCalc

-- One word of a line. Whatever text is no numeral, operator, assignment mark or letter is kept
-- as it stands.
inductive Token where
  | blank
  | number (numeral : Numeral)
  | operator (op : Operator)
  | assign
  | variable (letter : Letter)
  | unknown (text : String)
  deriving DecidableEq

inductive TokenKind where
  | empty | number | variable | operator | assign | unknown
  deriving DecidableEq

def TokenKind.name : TokenKind → String
  | .empty => "empty"
  | .number => "number"
  | .variable => "variable"
  | .operator => "operator"
  | .assign => "assign"
  | .unknown => "unknown"

namespace Token

def assignMark : String := "="

def isNumber (text : String) : Bool := (Numeral.ofText? text).isSome

def isOperator (text : String) : Bool := (Operator.ofSymbol? text).isSome

def isAssign (text : String) : Bool := text == assignMark

def isVariable (text : String) : Bool := (Letter.ofName? text).isSome

-- Numerals come first, so that a minus sign joined to digits is part of the number.
def read (text : String) : Token :=
  if text = "" then .blank
  else
    match Numeral.ofText? text with
    | some numeral => .number numeral
    | none =>
      match Operator.ofSymbol? text with
      | some op => .operator op
      | none =>
        if isAssign text then .assign
        else
          match Letter.ofName? text with
          | some letter => .variable letter
          | none => .unknown text

def text : Token → String
  | .blank => ""
  | .number numeral => numeral.text
  | .operator op => op.symbol
  | .assign => assignMark
  | .variable letter => letter.name
  | .unknown text => text

def kind : Token → TokenKind
  | .blank => .empty
  | .number _ => .number
  | .operator _ => .operator
  | .assign => .assign
  | .variable _ => .variable
  | .unknown _ => .unknown

end Token

namespace Subject

-- The class of a token that need not be a text. Whatever else says nothing is as good as an empty
-- text.
def kind : Subject → TokenKind
  | .text value => (Token.read value).kind
  | other => if other.isVoid then .empty else .unknown

-- Only a text passes the test of a class.
def passes (test : String → Bool) : Subject → Bool
  | .text value => test value
  | _ => false

end Subject

end PostfixCalc
