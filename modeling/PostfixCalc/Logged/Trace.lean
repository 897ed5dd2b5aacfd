import PostfixCalc.Logged

namespace PostfixCalc

variable [Power]

-- Lines for one machine, one after the other, whether or not they fail.
def Logged.evaluateAll (level : Level) :
    List String → Action (List (Except EvalError (Option Binary64)))
  | [] => return []
  | line :: rest => do
    let result ← (evaluate level line).run
    let results ← evaluateAll level rest
    return result :: results

namespace Machine

-- A token that goes through: what it takes, what it leaves, and what is to be told of it. Only of
-- operators and assignments there is something to tell.
inductive Succeeds (machine : Machine) : Token → Machine → Option Record → Prop where
  | blank : Succeeds machine .blank machine none
  | number (numeral : Numeral) :
      Succeeds machine (.number numeral)
        { machine with stack := .number numeral.value :: machine.stack } none
  | «variable» (letter : Letter) :
      Succeeds machine (.variable letter)
        { machine with stack := .reference letter.name :: machine.stack } none
  | operator (op : Operator) (right left : Cell) (rest : List Cell) (rhs lhs value : Binary64)
      (hstack : machine.stack = right :: left :: rest) (hright : machine.resolve right = .ok rhs)
      (hleft : machine.resolve left = .ok lhs) (hvalue : op.compute? lhs rhs = some value) :
      Succeeds machine (.operator op) { machine with stack := .number value :: rest }
        (some (.operation op lhs rhs value))
  | assign (source : Cell) (letter : Letter) (rest : List Cell) (value : Binary64)
      (hstack : machine.stack = source :: .reference letter.name :: rest)
      (hsource : machine.resolve source = .ok value) :
      Succeeds machine .assign ⟨rest, machine.bindings.set letter value⟩
        (some (.assignment letter.name value))

-- What a full log tells of some tokens, in their order. Nothing is told of a token that fails, and
-- the tokens behind it are not looked at.
inductive Tells : Machine → List Token → List Record → Machine → Option EvalError → Prop where
  | done (machine : Machine) : Tells machine [] [] machine none
  | goesOn {machine next last : Machine} {token : Token} {rest : List Token} {told : Option Record}
      {records : List Record} {failure : Option EvalError} (hfirst : machine.Succeeds token next told)
      (hrest : Tells next rest records last failure) :
      Tells machine (token :: rest) (told.toList ++ records) last failure
  | stops {machine : Machine} {token : Token} {rest : List Token} {error : EvalError}
      (hnever : ∀ next told, ¬ machine.Succeeds token next told)
      (hfails : (machine.step token).failure = some error) :
      Tells machine (token :: rest) [] (machine.step token).machine (some error)

-- What it tells of a line: the words, then the tokens, and an error at the end if there is one. The
-- error may be that of the last cell, when all tokens have gone through.
inductive TellsLine (machine : Machine) (line : String) :
    List Record → Machine → Except EvalError (Option Binary64) → Prop where
  | value {records : List Record} {next : Machine} {value : Option Binary64}
      (htokens : Tells machine.reset (tokens line) records next none) (htop : next.top = .ok value) :
      TellsLine machine line (.tokens (Text.words line) :: records) next (.ok value)
  | tokenFails {records : List Record} {next : Machine} {error : EvalError}
      (htokens : Tells machine.reset (tokens line) records next (some error)) :
      TellsLine machine line (.tokens (Text.words line) :: (records ++ [.failed line error])) next
        (.error error)
  | topFails {records : List Record} {next : Machine} {error : EvalError}
      (htokens : Tells machine.reset (tokens line) records next none) (htop : next.top = .error error) :
      TellsLine machine line (.tokens (Text.words line) :: (records ++ [.failed line error])) next
        (.error error)

-- What it tells of lines that come one after the other.
inductive TellsLines : Machine → List String → List Record → Machine →
    List (Except EvalError (Option Binary64)) → Prop where
  | done (machine : Machine) : TellsLines machine [] [] machine []
  | goesOn {machine next last : Machine} {line : String} {rest : List String}
      {first later : List Record} {result : Except EvalError (Option Binary64)}
      {results : List (Except EvalError (Option Binary64))}
      (hfirst : machine.TellsLine line first next result)
      (hrest : TellsLines next rest later last results) :
      TellsLines machine (line :: rest) (first ++ later) last (result :: results)

end Machine

-- The name and the value that a record says were assigned.
def Record.assigned? : Record → Option (String × Binary64)
  | .assignment name value => some (name, value)
  | _ => none

-- Assigns the values to the names once more, in their order.
def Bindings.replay (bindings : Bindings) (writes : List (String × Binary64)) :
    Except CallError Bindings :=
  writes.foldlM (fun bindings write => bindings.assign (.text write.1) (.binary write.2)) bindings

end PostfixCalc
