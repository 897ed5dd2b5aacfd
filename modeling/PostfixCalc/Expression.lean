import PostfixCalc.Token

namespace PostfixCalc

-- The lines that the machine can read to their end, as trees. Assignments leave nothing on the
-- stack, so that any number of them may follow an operand or a target before it is used.
mutual

inductive Expression where
  | number (numeral : Numeral)
  | letter (letter : Letter)
  | operation (left right : Operand) (op : Operator)

-- An expression and the assignments after it.
inductive Operand where
  | plain (expression : Expression)
  | followed (operand : Operand) (assignment : Assignment)

inductive Assignment where
  | assign (target : Target) (source : Operand)

-- A letter to be assigned to and the assignments after it.
inductive Target where
  | letter (letter : Letter)
  | followed (target : Target) (assignment : Assignment)

end

inductive Phrase where
  | expression (tree : Expression)
  | assignment (tree : Assignment)

-- The tokens of a tree, in postfix order.
mutual

def Expression.tokens : Expression → List Token
  | .number numeral => [.number numeral]
  | .letter letter => [.variable letter]
  | .operation left right op => left.tokens ++ right.tokens ++ [.operator op]

def Operand.tokens : Operand → List Token
  | .plain expression => expression.tokens
  | .followed operand assignment => operand.tokens ++ assignment.tokens

def Assignment.tokens : Assignment → List Token
  | .assign target source => target.tokens ++ source.tokens ++ [.assign]

def Target.tokens : Target → List Token
  | .letter letter => [.variable letter]
  | .followed target assignment => target.tokens ++ assignment.tokens

end

def Phrase.tokens : Phrase → List Token
  | .expression tree => tree.tokens
  | .assignment tree => tree.tokens

end PostfixCalc
