import PostfixCalc.EvalError
import PostfixCalc.Token

namespace PostfixCalc

-- What can be told of a cell without computing anything.
inductive Shape where
  | number
  | reference (letter : Letter)
  deriving DecidableEq

-- What can be wrong with a line whatever the values are.
inductive ShapeError where
  | stackUnderflow (token : Token) (depth : Nat)
  | numberTarget
  | unknownToken (text : String)
  deriving DecidableEq

namespace Shape

def step (shapes : List Shape) : Token → Except ShapeError (List Shape)
  | .blank => .ok shapes
  | .number _ => .ok (.number :: shapes)
  | .variable letter => .ok (.reference letter :: shapes)
  | .unknown text => .error (.unknownToken text)
  | .operator op =>
    match shapes with
    | _ :: _ :: rest => .ok (.number :: rest)
    | _ => .error (.stackUnderflow (.operator op) shapes.length)
  | .assign =>
    match shapes with
    | _ :: .reference _ :: rest => .ok rest
    | _ :: .number :: _ => .error .numberTarget
    | _ => .error (.stackUnderflow .assign shapes.length)

-- The shapes that tokens leave behind, or the place of the first token that fails, and how.
def check (shapes : List Shape) (place : Nat) : List Token → Except (Nat × ShapeError) (List Shape)
  | [] => .ok shapes
  | token :: rest =>
    match step shapes token with
    | .ok next => check next (place + 1) rest
    | .error error => .error (place, error)

end Shape

-- The errors of a line that a fault of its shape may show as.
inductive ShapeError.Shows : ShapeError → EvalError → Prop where
  | stackUnderflow (token : Token) (depth : Nat) :
      Shows (.stackUnderflow token depth) (.stackUnderflow token.text depth)
  | numberTarget (value : Binary64) :
      Shows .numberTarget (.invalidTarget (.cell (.number value)))
  | unknownToken (text : String) : Shows (.unknownToken text) (.unknownToken text)

end PostfixCalc
