import PostfixCalc.EvalError
import PostfixCalc.Operator

namespace PostfixCalc

-- A value from outside: a number that is already binary64, a whole number of any size, or something
-- that no number can be made of, with what is said of it.
inductive Quantity where
  | binary (value : Binary64)
  | integer (value : Int)
  | foreign (complaint : String)

namespace Quantity

-- A whole number that would round to an infinity is refused.
def toBinary64 : Quantity → Except CallError Binary64
  | .binary value => .ok value
  | .integer value =>
    match Binary64.ofInt value with
    | .infinity _ => .error .overflow
    | rounded => .ok rounded
  | .foreign complaint => .error (.noNumber complaint)

end Quantity

variable [Power]

-- The left side is converted before the right, except that a divisor is converted, and tried for
-- zero, before the dividend is looked at.
def Operator.call (op : Operator) (lhs rhs : Quantity) : Except CallError Binary64 := do
  if op = .div then
    let divisor ← rhs.toBinary64
    if divisor.isZero then throw (.evaluation .divisionByZero)
  let left ← lhs.toBinary64
  let right ← rhs.toBinary64
  match op.compute? left right with
  | some value => return value
  | none => throw (.evaluation .divisionByZero)

def callSymbol (symbol : String) (lhs rhs : Quantity) : Except CallError Binary64 :=
  match Operator.ofSymbol? symbol with
  | some op => op.call lhs rhs
  | none => .error (.unknownSymbol symbol)

end PostfixCalc
