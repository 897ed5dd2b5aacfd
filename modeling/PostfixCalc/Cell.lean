import PostfixCalc.Binary64.Text

namespace PostfixCalc

-- What can lie on the stack: a number, a name that has not been read yet, or something that is
-- neither and was put there from outside.
inductive Cell where
  | number (value : Binary64)
  | reference (name : String)
  | foreign (text : String)
  deriving DecidableEq

-- What an error can be about, or a name can be asked for with.
inductive Subject where
  | absent
  | truth (value : Bool)
  | integer (value : Int)
  | text (value : String)
  | cell (value : Cell)
  deriving DecidableEq

end PostfixCalc
