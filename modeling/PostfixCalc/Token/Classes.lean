import PostfixCalc.Token

namespace PostfixCalc

-- One or more of the ten ASCII digits.
def Decimal.IsRun (cs : List Char) : Prop := cs ≠ [] ∧ ∀ c ∈ cs, '0' ≤ c ∧ c ≤ '9'

-- How a number is written: a minus sign or none, digits, and perhaps a point with digits behind it.
inductive Numeral.IsWritten : List Char → Prop where
  | whole (sign digits : List Char) (hsign : sign = [] ∨ sign = ['-'])
      (hdigits : Decimal.IsRun digits) : IsWritten (sign ++ digits)
  | point (sign digits fraction : List Char) (hsign : sign = [] ∨ sign = ['-'])
      (hdigits : Decimal.IsRun digits) (hfraction : Decimal.IsRun fraction) :
      IsWritten (sign ++ digits ++ '.' :: fraction)

namespace Token

-- The classes that have a test of their own.
def recognisers : List (TokenKind × (String → Bool)) :=
  [(.number, isNumber), (.operator, isOperator), (.assign, isAssign), (.variable, isVariable)]

-- The class of the first test that a text passes, when the tests are made in a given order.
def kindBy (checks : List (TokenKind × (String → Bool))) (text : String) : TokenKind :=
  if text = "" then .empty
  else
    match checks.find? (·.2 text) with
    | some check => check.1
    | none => .unknown

end Token

end PostfixCalc
