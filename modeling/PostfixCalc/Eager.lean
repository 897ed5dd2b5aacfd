import PostfixCalc.Bindings
import PostfixCalc.Token

namespace PostfixCalc.Eager

variable [Power]

-- An evaluator that reads a letter as soon as it is pushed, so that its stack holds numbers only.
-- As no letter is left to assign to, every assignment fails.
structure Reaction where
  stack : List Binary64
  failure : Option EvalError

def step (bindings : Bindings) (stack : List Binary64) : Token → Reaction
  | .blank => ⟨stack, none⟩
  | .number numeral => ⟨numeral.value :: stack, none⟩
  | .variable letter =>
    match bindings.get? letter with
    | some value => ⟨value :: stack, none⟩
    | none => ⟨stack, some (.unassignedVariable letter.name)⟩
  | .unknown text => ⟨stack, some (.unknownToken text)⟩
  | .operator op =>
    match stack with
    | rhs :: lhs :: rest =>
      match op.compute? lhs rhs with
      | some value => ⟨value :: rest, none⟩
      | none => ⟨rest, some .divisionByZero⟩
    | _ => ⟨stack, some (.stackUnderflow op.symbol stack.length)⟩
  | .assign =>
    match stack with
    | _ :: target :: rest => ⟨rest, some (.invalidTarget (.cell (.number target)))⟩
    | _ => ⟨stack, some (.stackUnderflow Token.assignMark stack.length)⟩

def run (bindings : Bindings) (stack : List Binary64) : List Token → Reaction
  | [] => ⟨stack, none⟩
  | token :: rest =>
    let first := step bindings stack token
    match first.failure with
    | some _ => first
    | none => run bindings first.stack rest

-- The value of a line is on top of its stack.
def result (reaction : Reaction) : Except EvalError (Option Binary64) :=
  match reaction.failure with
  | some error => .error error
  | none => .ok reaction.stack.head?

end PostfixCalc.Eager
