import PostfixCalc.Session.Sharing
import PostfixCalc.Unguarded

namespace PostfixCalc

-- A call from outside that changes the variables, or tries to.
inductive Revision where
  | assign (name : Subject) (value : Quantity)
  | clear

namespace Revision

def step : Revision → Session.Step
  | .assign name value => .assign name value
  | .clear => .clear

-- The same call as an action that keeps what it has changed when it stops.
def action : Revision → Unguarded.Action Unit
  | .assign name value => Unguarded.enter name value
  | .clear => modify fun machine => { machine with bindings := machine.bindings.clear }

def isClear : Revision → Bool
  | .assign .. => false
  | .clear => true

-- The name and the value that a call sets down, if it goes through: it needs a letter for its name,
-- and a number for its value that is not too large.
def write? : Revision → Option (String × Binary64)
  | .assign (.text name) value =>
    if Token.isVariable name then value.toBinary64.toOption.map (name, ·) else none
  | _ => none

-- All that has been set down since the variables were last cleared, in its order.
def writes (calls : List Revision) : List (String × Binary64) :=
  (calls.reverse.takeWhile (!·.isClear)).reverse.filterMap write?

-- Every name once, where it was set down first.
def firstNames (writes : List (String × Binary64)) : List String := (writes.map Prod.fst).eraseDups

-- The value that a name was given last.
def lastValue? (writes : List (String × Binary64)) (name : String) : Option Binary64 :=
  writes.reverse.lookup name

end Revision

-- The machine after some calls, however each of them ended.
def Machine.revised (machine : Machine) (calls : List Revision) : Machine :=
  calls.foldl (fun machine call => (call.action.run.run machine).2) machine

end PostfixCalc
