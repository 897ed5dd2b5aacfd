import PostfixCalc.Machine
import PostfixCalc.Proofs.Token

namespace PostfixCalc.Machine

-- All that an operator can do.
inductive Operates [Power] (machine : Machine) (op : Operator) : Reaction → Prop where
  | short (hshort : machine.stack.length < 2) :
      Operates machine op (machine.fail (.stackUnderflow op.symbol machine.stack.length))
  | rightFails (right left : Cell) (rest : List Cell) (error : EvalError)
      (hstack : machine.stack = right :: left :: rest) (hright : machine.resolve right = .error error) :
      Operates machine op (fail { machine with stack := left :: rest } error)
  | leftFails (right left : Cell) (rest : List Cell) (rhs : Binary64) (error : EvalError)
      (hstack : machine.stack = right :: left :: rest) (hright : machine.resolve right = .ok rhs)
      (hleft : machine.resolve left = .error error) :
      Operates machine op (fail { machine with stack := rest } error)
  | noResult (right left : Cell) (rest : List Cell) (rhs lhs : Binary64)
      (hstack : machine.stack = right :: left :: rest) (hright : machine.resolve right = .ok rhs)
      (hleft : machine.resolve left = .ok lhs) (hresult : op.compute? lhs rhs = none) :
      Operates machine op (fail { machine with stack := rest } .divisionByZero)
  | done (right left : Cell) (rest : List Cell) (rhs lhs value : Binary64)
      (hstack : machine.stack = right :: left :: rest) (hright : machine.resolve right = .ok rhs)
      (hleft : machine.resolve left = .ok lhs) (hresult : op.compute? lhs rhs = some value) :
      Operates machine op
        ⟨{ machine with stack := .number value :: rest }, none, [.operation op lhs rhs value]⟩

-- Cells are resolved by the bindings, whatever else is on the stack.
theorem resolve_popped (machine : Machine) (stack : List Cell) (cell : Cell) :
    resolve { machine with stack := stack } cell = machine.resolve cell := by
  cases cell <;> rfl

theorem operate_cases [Power] (machine : Machine) (op : Operator) :
    machine.Operates op (machine.operate op) := by
  unfold operate
  split
  · rename_i right left rest hstack
    split
    · exact .rightFails right left rest _ hstack ‹_›
    · split
      · exact .leftFails right left rest _ _ hstack ‹_› ‹_›
      · split
        · exact .noResult right left rest _ _ hstack ‹_› ‹_› ‹_›
        · exact .done right left rest _ _ _ hstack ‹_› ‹_› ‹_›
  · rename_i hstack
    apply Operates.short
    match hlength : machine.stack with
    | [] => simp
    | [_] => simp
    | right :: left :: rest => exact absurd hlength (hstack right left rest)

theorem eq_reference_of_target? {cell : Cell} {letter : Letter} (h : target? cell = some letter) :
    cell = .reference letter.name := by
  cases cell with
  | reference name => rw [Letter.ofName?_eq_some_iff.mp h]
  | number value => exact absurd h (by simp [target?])
  | foreign text => exact absurd h (by simp [target?])

-- All that an assignment can do.
inductive Stores (machine : Machine) : Reaction → Prop where
  | short (hshort : machine.stack.length < 2) :
      Stores machine (machine.fail (.stackUnderflow Token.assignMark machine.stack.length))
  | noTarget (source target : Cell) (rest : List Cell)
      (hstack : machine.stack = source :: target :: rest) (htarget : target? target = none) :
      Stores machine (fail { machine with stack := rest } (.invalidTarget (.cell target)))
  | sourceFails (source target : Cell) (rest : List Cell) (letter : Letter) (error : EvalError)
      (hstack : machine.stack = source :: target :: rest) (htarget : target? target = some letter)
      (hsource : machine.resolve source = .error error) :
      Stores machine (fail { machine with stack := rest } error)
  | done (source target : Cell) (rest : List Cell) (letter : Letter) (value : Binary64)
      (hstack : machine.stack = source :: target :: rest) (htarget : target? target = some letter)
      (hsource : machine.resolve source = .ok value) :
      Stores machine
        ⟨⟨rest, machine.bindings.set letter value⟩, none, [.assignment letter.name value]⟩

theorem store_cases (machine : Machine) : machine.Stores machine.store := by
  unfold store
  split
  · rename_i source target rest hstack
    split
    · exact .noTarget source target rest hstack ‹_›
    · split
      · exact .sourceFails source target rest _ _ hstack ‹_› ‹_›
      · exact .done source target rest _ _ hstack ‹_› ‹_›
  · rename_i hstack
    apply Stores.short
    match hlength : machine.stack with
    | [] => simp
    | [_] => simp
    | source :: target :: rest => exact absurd hlength (hstack source target rest)

-- An assignment has all it needs: a value, and below it a letter that the value can be given to.
def Binds (machine : Machine) (letter : Letter) (value : Binary64) : Prop :=
  ∃ source rest, machine.stack = source :: .reference letter.name :: rest ∧
    machine.resolve source = .ok value

-- Only an assignment that goes through changes the bindings, and only at its target.
theorem bindings_step [Power] (machine : Machine) (token : Token) :
    (machine.step token).machine.bindings = machine.bindings ∨
      ∃ letter value, token = .assign ∧ (machine.step token).failure = none ∧
        machine.Binds letter value ∧
        (machine.step token).machine.bindings = machine.bindings.set letter value := by
  cases token with
  | blank => exact .inl rfl
  | number numeral => exact .inl rfl
  | «variable» letter => exact .inl rfl
  | unknown text => exact .inl rfl
  | operator op =>
      have hcases := machine.operate_cases op
      change (machine.operate op).machine.bindings = machine.bindings ∨ _
      generalize machine.operate op = reaction at hcases
      left
      cases hcases <;> rfl
  | assign =>
      have hcases := machine.store_cases
      change machine.store.machine.bindings = machine.bindings ∨ ∃ letter value, _ ∧
        machine.store.failure = none ∧ _ ∧ machine.store.machine.bindings = _
      generalize machine.store = reaction at hcases
      cases hcases with
      | short => exact .inl rfl
      | noTarget => exact .inl rfl
      | sourceFails => exact .inl rfl
      | done source target rest letter value hstack htarget hsource =>
          obtain rfl := eq_reference_of_target? htarget
          exact .inr ⟨letter, value, rfl, rfl, ⟨source, rest, hstack, hsource⟩, rfl⟩

-- The value of a line is missing only if the last cell has none.
theorem exists_of_top_error {machine : Machine} {error : EvalError} (h : machine.top = .error error) :
    ∃ cell rest, machine.stack = cell :: rest ∧ machine.resolve cell = .error error := by
  unfold top at h
  split at h
  · exact absurd h (by simp)
  · rename_i cell rest hstack
    refine ⟨cell, rest, hstack, ?_⟩
    cases hvalue : machine.resolve cell with
    | ok value => exact absurd h (by simp [hvalue, Except.map])
    | error cause =>
        rw [hvalue] at h
        obtain rfl := Except.error.inj h
        rfl

theorem top_eq_none_iff {machine : Machine} : machine.top = .ok none ↔ machine.stack = [] := by
  unfold top
  split
  · simp_all
  · rename_i cell rest hstack
    rw [hstack]
    cases machine.resolve cell <;> simp [Except.map]

end PostfixCalc.Machine
