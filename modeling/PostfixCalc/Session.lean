import PostfixCalc.Console

namespace PostfixCalc

-- One evaluator of a session: its own stack, and the place of the bindings it uses.
structure Evaluator where
  stack : List Cell
  place : Nat

-- Several evaluators side by side, some of which may share their bindings.
structure Session where
  evaluators : List Evaluator
  bindings : List Bindings

namespace Session

inductive Step where
  | create (sharing : Option Nat)
  | evaluate (line : String)
  | answer (line : String)
  | token (text : String)
  | push (cell : Cell)
  | resolve (cell : Cell)
  | reset
  | assign (name : Subject) (value : Quantity)
  | lookup (name : String)
  | contains (name : String)
  | size
  | names
  | snapshot
  | text
  | clear

inductive Result where
  | done
  | index (value : Nat)
  | count (value : Nat)
  | truth (value : Bool)
  | value (value : Binary64)
  | line (succeeded : Bool) (events : List Event)
  | names (value : List String)
  | entries (value : List (String × Binary64))
  | text (value : String)

-- A session begins with one evaluator and its bindings.
def initial : Session := ⟨[⟨[], 0⟩], [.empty]⟩

-- The evaluator as a machine of its own.
def machine (session : Session) (index : Nat) : Machine :=
  match session.evaluators[index]? with
  | some evaluator => ⟨evaluator.stack, session.bindings.getD evaluator.place .empty⟩
  | none => .initial

-- Puts a machine back in the place of an evaluator. All that share its bindings see the change.
def update (session : Session) (index : Nat) (machine : Machine) : Session :=
  match session.evaluators[index]? with
  | some evaluator =>
    ⟨session.evaluators.set index { evaluator with stack := machine.stack },
      session.bindings.set evaluator.place machine.bindings⟩
  | none => session

-- A new evaluator has an empty stack. It shares the bindings of another, or gets new ones.
def create (session : Session) (sharing : Option Nat) : Session :=
  match sharing.bind (session.evaluators[·]?) with
  | some other => { session with evaluators := session.evaluators ++ [⟨[], other.place⟩] }
  | none =>
    ⟨session.evaluators ++ [⟨[], session.bindings.length⟩], session.bindings ++ [.empty]⟩

end Session

variable [Power]

namespace Machine

-- One step that concerns a single evaluator. A step that fails answers with its error.
def perform (machine : Machine) : Session.Step → Machine × Except CallError Session.Result
  | .create _ => (machine, .ok .done)
  | .evaluate line =>
    let evaluation := machine.evaluate line
    (evaluation.machine,
      match evaluation.result with
      | .ok none => .ok .done
      | .ok (some value) => .ok (.value value)
      | .error error => .error (.evaluation error))
  | .answer line =>
    let reply := machine.answer line
    (reply.machine, .ok (.line reply.succeeded reply.events))
  | .token text =>
    let reaction := machine.step (Token.read text)
    (reaction.machine,
      match reaction.failure with
      | none => .ok .done
      | some error => .error (.evaluation error))
  | .push cell => ((machine.push cell).machine, .ok .done)
  | .resolve cell =>
    (machine,
      match machine.resolve cell with
      | .ok value => .ok (.value value)
      | .error error => .error (.evaluation error))
  | .reset => (machine.reset, .ok .done)
  | .assign name value =>
    match machine.bindings.assign name value with
    | .ok bindings => ({ machine with bindings := bindings }, .ok .done)
    | .error error => (machine, .error error)
  | .lookup name =>
    (machine,
      match machine.bindings.lookup name with
      | .ok value => .ok (.value value)
      | .error error => .error (.evaluation error))
  | .contains name => (machine, .ok (.truth (machine.bindings.contains name)))
  | .size => (machine, .ok (.count machine.bindings.size))
  | .names => (machine, .ok (.names machine.bindings.names))
  | .snapshot => (machine, .ok (.entries machine.bindings.snapshot))
  | .text => (machine, .ok (.text machine.bindings.text))
  | .clear => ({ machine with bindings := machine.bindings.clear }, .ok .done)

end Machine

namespace Session

-- One step on the evaluator with the given index.
def perform (session : Session) (index : Nat) : Step → Session × Except CallError Result
  | .create sharing => (session.create sharing, .ok (.index session.evaluators.length))
  | step =>
    let (machine, answer) := (session.machine index).perform step
    (session.update index machine, answer)

end Session

end PostfixCalc
