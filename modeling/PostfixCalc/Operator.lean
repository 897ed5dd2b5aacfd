import PostfixCalc.Binary64.Arithmetic
import PostfixCalc.Binary64.Power

namespace PostfixCalc

-- How numbers are raised to a power. Libraries do not agree in the last place of a power, and
-- nothing else in the program relies on what it is.
class Power where
  raise : Binary64 → Binary64 → Binary64

-- The program runs with a power that is rounded once.
instance : Power := ⟨Binary64.pow⟩

inductive Operator where
  | add | sub | mul | div | mod | pow
  deriving DecidableEq

namespace Operator

def all : List Operator := [.add, .sub, .mul, .div, .mod, .pow]

def symbol : Operator → String
  | .add => "+"
  | .sub => "-"
  | .mul => "*"
  | .div => "/"
  | .mod => "%"
  | .pow => "^"

def ofSymbol? (symbol : String) : Option Operator := all.find? (·.symbol == symbol)

variable [Power]

-- Nothing is the result of dividing by a zero of either sign. All else has a result, with
-- infinities and NaN where no finite number will do; a remainder by zero is NaN.
def compute? (lhs rhs : Binary64) : Operator → Option Binary64
  | .add => some (lhs.add rhs)
  | .sub => some (lhs.sub rhs)
  | .mul => some (lhs.mul rhs)
  | .div => if rhs.isZero then none else some (lhs.div rhs)
  | .mod => some (lhs.mod rhs)
  | .pow => some (Power.raise lhs rhs)

end Operator

end PostfixCalc
