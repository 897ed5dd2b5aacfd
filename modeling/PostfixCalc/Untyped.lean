import PostfixCalc.Session.Sharing

namespace PostfixCalc.Untyped

variable [Power]

-- The machine once more, over a table that would take any text for a name. What keeps names other
-- than letters out of it, and a name from standing in it twice, is only how it is written to: names
-- are judged by the machine before an assignment and by the table in every one.
abbrev Table := List (String × Binary64)

namespace Table

-- A name that is there keeps its place; a new one goes to the end.
def put (name : String) (value : Binary64) : Table → Table
  | [] => [(name, value)]
  | (key, old) :: rest =>
    if key = name then (key, value) :: rest else (key, old) :: put name value rest

def assign (table : Table) (name : Subject) (value : Quantity) : Except CallError Table :=
  match name with
  | .text text =>
    if Token.isVariable text then value.toBinary64.map (put text · table)
    else .error (.evaluation (.invalidTarget name))
  | _ => .error (.evaluation (.invalidTarget name))

end Table

structure State where
  stack : List Cell
  table : Table

-- What an action leaves behind, and what it stopped at if it did not come to its end.
structure Outcome where
  state : State
  failure : Option CallError

def failureOf {ε α : Type} : Except ε α → Option ε
  | .ok _ => none
  | .error error => some error

namespace State

def initial : State := ⟨[], []⟩

def reset (state : State) : State := { state with stack := [] }

def resolve (state : State) : Cell → Except EvalError Binary64
  | .number value => .ok value
  | .reference name =>
    match state.table.lookup name with
    | some value => .ok value
    | none => .error (.unassignedVariable name)
  | .foreign text => .error (.invalidOperand (.foreign text))

def push (state : State) (cell : Cell) : Outcome := ⟨{ state with stack := cell :: state.stack }, none⟩

def fail (state : State) (error : EvalError) : Outcome := ⟨state, some (.evaluation error)⟩

def operate (state : State) (op : Operator) : Outcome :=
  match state.stack with
  | right :: left :: rest =>
    match state.resolve right with
    | .error error => fail { state with stack := left :: rest } error
    | .ok rhs =>
      let popped := { state with stack := rest }
      match state.resolve left with
      | .error error => fail popped error
      | .ok lhs =>
        match op.compute? lhs rhs with
        | none => fail popped .divisionByZero
        | some value => popped.push (.number value)
  | stack => fail state (.stackUnderflow op.symbol stack.length)

-- The table may still refuse what the machine lets pass.
def store (state : State) : Outcome :=
  match state.stack with
  | source :: target :: rest =>
    let popped := { state with stack := rest }
    match target with
    | .reference name =>
      if Token.isVariable name then
        match state.resolve source with
        | .error error => fail popped error
        | .ok value =>
          match state.table.assign (.text name) (.binary value) with
          | .error error => ⟨popped, some error⟩
          | .ok table => ⟨{ popped with table := table }, none⟩
      else fail popped (.invalidTarget (.cell target))
    | _ => fail popped (.invalidTarget (.cell target))
  | stack => fail state (.stackUnderflow Token.assignMark stack.length)

def step (state : State) : Token → Outcome
  | .blank => ⟨state, none⟩
  | .number numeral => state.push (.number numeral.value)
  | .variable letter => state.push (.reference letter.name)
  | .operator op => state.operate op
  | .assign => state.store
  | .unknown text => state.fail (.unknownToken text)

def run (state : State) : List Token → Outcome
  | [] => ⟨state, none⟩
  | token :: rest =>
    let first := state.step token
    match first.failure with
    | some _ => first
    | none => first.state.run rest

def evaluate (state : State) (line : String) : Outcome :=
  let outcome := state.reset.run (Machine.tokens line)
  match outcome.failure, outcome.state.stack with
  | none, cell :: _ =>
    { outcome with failure := (failureOf (outcome.state.resolve cell)).map .evaluation }
  | _, _ => outcome

-- Errors of evaluation are reported and end there; others would go on.
def answer (state : State) (line : String) : Outcome :=
  let outcome := state.evaluate line
  match outcome.failure with
  | some (.evaluation _) => ⟨outcome.state.reset, none⟩
  | _ => outcome

end State

-- What can be done to the machine from outside.
inductive Action where
  | evaluate (line : String)
  | answer (line : String)
  | token (text : String)
  | push (cell : Cell)
  | reset
  | clear
  | assign (name : Subject) (value : Quantity)

def Action.step : Action → Session.Step
  | .evaluate line => .evaluate line
  | .answer line => .answer line
  | .token text => .token text
  | .push cell => .push cell
  | .reset => .reset
  | .clear => .clear
  | .assign name value => .assign name value

namespace State

def perform (state : State) : Action → Outcome
  | .evaluate line => state.evaluate line
  | .answer line => state.answer line
  | .token text => state.step (Token.read text)
  | .push cell => state.push cell
  | .reset => ⟨state.reset, none⟩
  | .clear => ⟨{ state with table := [] }, none⟩
  | .assign name value =>
    match state.table.assign name value with
    | .ok table => ⟨{ state with table := table }, none⟩
    | .error error => ⟨state, some error⟩

-- What is left when several things have been done, however each of them ended.
def after (state : State) (actions : List Action) : State :=
  actions.foldl (fun state action => (state.perform action).state) state

-- The tokens that a run comes to, each with the state that it meets.
def trace (state : State) : List Token → List (State × Token)
  | [] => []
  | token :: rest =>
    let first := state.step token
    (state, token) ::
      match first.failure with
      | some _ => []
      | none => first.state.trace rest

def traceOf (state : State) : Action → List (State × Token)
  | .evaluate line | .answer line => state.reset.trace (Machine.tokens line)
  | .token text => [(state, Token.read text)]
  | _ => []

end State

-- After a change of the table a name has a value, and all other names have what they had.
def Table.Rebinds (name : String) (value : Binary64) (before after : Table) : Prop :=
  after.lookup name = some value ∧ ∀ other, other ≠ name → after.lookup other = before.lookup other

-- How the table comes along as tokens are met. A `=` that goes through gives its target the value
-- that the cell above it has at that moment; whatever else is met leaves the table as it is.
inductive Edits : Table → List (State × Token) → Table → Prop where
  | nil (table : Table) : Edits table [] table
  | kept (state : State) (token : Token) (rest : List (State × Token)) (later : Table)
      (hother : token ≠ .assign ∨ (state.step token).failure ≠ none)
      (hrest : Edits state.table rest later) : Edits state.table ((state, token) :: rest) later
  | assigned (state : State) (rest : List (State × Token)) (changed later : Table)
      (source : Cell) (name : String) (below : List Cell) (value : Binary64)
      (hdone : (state.step .assign).failure = none)
      (hstack : state.stack = source :: .reference name :: below)
      (hvalue : state.resolve source = .ok value) (hchanged : Table.Rebinds name value state.table changed)
      (hrest : Edits changed rest later) : Edits state.table ((state, .assign) :: rest) later

end PostfixCalc.Untyped
