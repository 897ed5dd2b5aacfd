import PostfixCalc.Bindings
import PostfixCalc.Expression

namespace PostfixCalc

-- What an expression comes to: a number, or a letter that has not been read yet.
inductive Deferred where
  | number (value : Binary64)
  | letter (letter : Letter)
  deriving DecidableEq

-- A computation that reads and changes the bindings. What it has changed stays when it fails.
abbrev Effect (α : Type) := Bindings → Except EvalError α × Bindings

namespace Effect

def pure {α : Type} (value : α) : Effect α := fun bindings => (.ok value, bindings)

def fail {α : Type} (error : EvalError) : Effect α := fun bindings => (.error error, bindings)

def andThen {α β : Type} (first : Effect α) (next : α → Effect β) : Effect β := fun bindings =>
  match first bindings with
  | (.ok value, later) => next value later
  | (.error error, later) => (.error error, later)

def write (letter : Letter) (value : Binary64) : Effect Unit := fun bindings =>
  (.ok (), bindings.set letter value)

end Effect

-- A letter is read at the moment its value is needed.
def Deferred.read : Deferred → Effect Binary64
  | .number value => Effect.pure value
  | .letter unread => fun bindings =>
    match bindings.get? unread with
    | some value => (.ok value, bindings)
    | none => (.error (.unassignedVariable unread.name), bindings)

variable [Power]

-- The right operand is read before the left one.
def Operator.combine (op : Operator) (left right : Deferred) : Effect Deferred :=
  right.read.andThen fun rhs =>
    left.read.andThen fun lhs =>
      match op.compute? lhs rhs with
      | some value => Effect.pure (.number value)
      | none => Effect.fail .divisionByZero

-- The parts of a tree are run in the order in which they are written. A target is never read.
mutual

def Expression.run : Expression → Effect Deferred
  | .number numeral => Effect.pure (.number numeral.value)
  | .letter letter => Effect.pure (.letter letter)
  | .operation left right op =>
    left.run.andThen fun lhs => right.run.andThen fun rhs => op.combine lhs rhs

def Operand.run : Operand → Effect Deferred
  | .plain expression => expression.run
  | .followed operand assignment =>
    operand.run.andThen fun value => assignment.run.andThen fun _ => Effect.pure value

def Assignment.run : Assignment → Effect Unit
  | .assign target source =>
    target.run.andThen fun letter =>
      source.run.andThen fun value => value.read.andThen fun number => Effect.write letter number

def Target.run : Target → Effect Letter
  | .letter letter => Effect.pure letter
  | .followed target assignment =>
    target.run.andThen fun letter => assignment.run.andThen fun _ => Effect.pure letter

end

-- The values that top-level expressions leave behind, the last one first.
def Phrase.run (left : List Deferred) : Phrase → Effect (List Deferred)
  | .expression tree => tree.run.andThen fun value => Effect.pure (value :: left)
  | .assignment tree => tree.run.andThen fun _ => Effect.pure left

def Phrase.runAll (left : List Deferred) : List Phrase → Effect (List Deferred)
  | [] => Effect.pure left
  | phrase :: rest => (phrase.run left).andThen fun next => Phrase.runAll next rest

-- The value of a line is that of its last expression, read when everything else has been done.
def Phrase.value (phrases : List Phrase) : Effect (Option Binary64) :=
  (Phrase.runAll [] phrases).andThen fun left =>
    match left with
    | [] => Effect.pure none
    | last :: _ => last.read.andThen fun number => Effect.pure (some number)

end PostfixCalc
