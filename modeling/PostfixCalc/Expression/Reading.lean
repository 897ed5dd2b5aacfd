import PostfixCalc.Expression

namespace PostfixCalc.Phrase

-- Phrases that have been read are kept with the last one first. What an operator works on is the
-- last expression with all the assignments after it, and the same again before that.
def lastOperand : List Phrase → Option (Operand × List Phrase)
  | [] => none
  | .expression tree :: rest => some (.plain tree, rest)
  | .assignment tree :: rest =>
    (lastOperand rest).map fun (operand, before) => (.followed operand tree, before)

-- What is assigned to has to be a letter, but assignments may come between.
def lastTarget : List Phrase → Option (Target × List Phrase)
  | .expression (.letter letter) :: rest => some (.letter letter, rest)
  | .assignment tree :: rest =>
    (lastTarget rest).map fun (target, before) => (.followed target tree, before)
  | _ => none

def readToken (read : List Phrase) : Token → Option (List Phrase)
  | .blank => some read
  | .number numeral => some (.expression (.number numeral) :: read)
  | .variable letter => some (.expression (.letter letter) :: read)
  | .operator op =>
    (lastOperand read).bind fun (right, rest) =>
      (lastOperand rest).map fun (left, before) => .expression (.operation left right op) :: before
  | .assign =>
    (lastOperand read).bind fun (source, rest) =>
      (lastTarget rest).map fun (target, before) => .assignment (.assign target source) :: before
  | .unknown _ => none

def readTokens (read : List Phrase) : List Token → Option (List Phrase)
  | [] => some read
  | token :: rest => (readToken read token).bind fun next => readTokens next rest

end PostfixCalc.Phrase
