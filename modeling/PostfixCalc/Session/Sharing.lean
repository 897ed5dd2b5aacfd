import PostfixCalc.Session

namespace PostfixCalc

variable [Power]

namespace Session

-- A step and the evaluator it is addressed to.
structure Call where
  index : Nat
  step : Step

-- To create an evaluator is to address none.
def Call.evaluator? : Call → Option Nat
  | ⟨_, .create _⟩ => none
  | ⟨index, _⟩ => some index

-- The steps that put in whole lines, and those that go with them.
def Step.isLine : Step → Bool
  | .evaluate _ | .answer _ => true
  | _ => false

def Step.isPlain : Step → Bool
  | .create _ | .evaluate _ | .answer _ | .reset => true
  | _ => false

def after (session : Session) (calls : List Call) : Session :=
  calls.foldl (fun session call => (session.perform call.index call.step).1) session

-- Who shares with whom, as the calls alone tell it: for every evaluator the one for which its
-- bindings were made. It is its own host if it does not share.
def hostsThen (hosts : List Nat) : Call → List Nat
  | ⟨_, .create sharing⟩ => hosts ++ [(sharing.bind (hosts[·]?)).getD hosts.length]
  | _ => hosts

def hostsAfter (hosts : List Nat) (calls : List Call) : List Nat := calls.foldl hostsThen hosts

-- The lines for all evaluators that have the given host, in the order of the calls.
def linesFor (host : Nat) (hosts : List Nat) : List Call → List Step
  | [] => []
  | call :: rest =>
    let later := linesFor host (hostsThen hosts call) rest
    if call.step.isLine ∧ hosts[call.index]? = some host then call.step :: later else later

end Session

def Machine.performAll (machine : Machine) (steps : List Session.Step) : Machine :=
  steps.foldl (fun machine step => (machine.perform step).1) machine

end PostfixCalc
