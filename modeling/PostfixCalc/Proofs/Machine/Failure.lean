import PostfixCalc.Proofs.Machine.Step

namespace PostfixCalc

theorem Binary64.isZero_iff {value : Binary64} :
    value.isZero = true ↔ ∃ negative, value = .zero negative := by
  constructor
  · intro h
    cases value with
    | nan => exact absurd h (by simp [isZero])
    | infinity negative => exact absurd h (by simp [isZero])
    | finite negative rank =>
        have hrank : rank = ⟨0, by decide⟩ := Fin.ext (by simpa [isZero] using h)
        exact ⟨negative, by rw [hrank, zero]⟩
  · rintro ⟨negative, rfl⟩
    rfl

-- Nothing but a division by zero is without a result.
theorem Operator.compute?_eq_none_iff [Power] {op : Operator} {lhs rhs : Binary64} :
    op.compute? lhs rhs = none ↔ op = .div ∧ ∃ negative, rhs = .zero negative := by
  rw [← Binary64.isZero_iff]
  cases op <;> simp [compute?]

namespace Token

-- The cells that a token takes off the stack, and those that it puts there.
def consumes : Token → Nat
  | .operator _ | .assign => 2
  | _ => 0

def produces : Token → Nat
  | .number _ | .variable _ | .operator _ => 1
  | _ => 0

end Token

namespace Machine

-- A cell that no value can be had from, and the error that says so.
inductive Unresolved (machine : Machine) : Cell → EvalError → Prop where
  | unassigned (name : String) (h : machine.bindings.contains name = false) :
      Unresolved machine (.reference name) (.unassignedVariable name)
  | foreign (text : String) : Unresolved machine (.foreign text) (.invalidOperand (.foreign text))

theorem resolve_eq_error_iff {machine : Machine} {cell : Cell} {error : EvalError} :
    machine.resolve cell = .error error ↔ machine.Unresolved cell error := by
  constructor
  · intro h
    cases cell with
    | number value => exact absurd h (by simp [resolve])
    | foreign text =>
        obtain rfl := Except.error.inj h
        exact .foreign text
    | reference name =>
        simp only [resolve, Bindings.lookup] at h
        split at h
        · exact absurd h (by simp)
        · rename_i hnone
          obtain rfl := Except.error.inj h
          exact .unassigned name (by rw [Bindings.contains, hnone, Option.isSome_none])
  · rintro (⟨name, hname⟩ | text)
    · have hnone : machine.bindings.find? name = none := by
        simpa [Bindings.contains] using hname
      simp only [resolve, Bindings.lookup, hnone]
    · rfl

theorem target?_eq_none_iff {cell : Cell} :
    target? cell = none ↔ ∀ letter : Letter, cell ≠ .reference letter.name := by
  constructor
  · rintro h letter rfl
    exact absurd h (by simp [target?])
  · intro h
    cases hletter : target? cell with
    | none => rfl
    | some letter => exact absurd (eq_reference_of_target? hletter) (h letter)

-- How a token can fail, and how many cells are gone from the top of the stack then. The operand on
-- top is read first; the target of an assignment is judged before the value above it is read.
inductive Fails (machine : Machine) : Token → EvalError → Nat → Prop where
  | unknown (text : String) : Fails machine (.unknown text) (.unknownToken text) 0
  | short (token : Token) (hconsumes : token.consumes = 2) (hshort : machine.stack.length < 2) :
      Fails machine token (.stackUnderflow token.text machine.stack.length) 0
  | right (op : Operator) (right left : Cell) (rest : List Cell) (error : EvalError)
      (hstack : machine.stack = right :: left :: rest) (hright : machine.Unresolved right error) :
      Fails machine (.operator op) error 1
  | left (op : Operator) (right left : Cell) (rest : List Cell) (rhs : Binary64)
      (error : EvalError) (hstack : machine.stack = right :: left :: rest)
      (hright : machine.resolve right = .ok rhs) (hleft : machine.Unresolved left error) :
      Fails machine (.operator op) error 2
  | zeroDivisor (right left : Cell) (rest : List Cell) (negative : Bool) (lhs : Binary64)
      (hstack : machine.stack = right :: left :: rest)
      (hright : machine.resolve right = .ok (.zero negative))
      (hleft : machine.resolve left = .ok lhs) :
      Fails machine (.operator .div) .divisionByZero 2
  | target (source target : Cell) (rest : List Cell)
      (hstack : machine.stack = source :: target :: rest)
      (htarget : ∀ letter : Letter, target ≠ .reference letter.name) :
      Fails machine .assign (.invalidTarget (.cell target)) 2
  | source (source : Cell) (letter : Letter) (rest : List Cell) (error : EvalError)
      (hstack : machine.stack = source :: .reference letter.name :: rest)
      (hsource : machine.Unresolved source error) : Fails machine .assign error 2

variable {machine : Machine} {token : Token} {error : EvalError} {count : Nat}

theorem Fails.count_le (h : machine.Fails token error count) : count ≤ machine.stack.length := by
  cases h <;> simp_all

theorem exists_fails_assign (h : machine.store.failure = some error) :
    ∃ count, machine.Fails .assign error count := by
  have hcases := machine.store_cases
  generalize machine.store = reaction at hcases h
  cases hcases with
  | short hshort =>
      obtain rfl := Option.some.inj h
      exact ⟨0, .short .assign rfl hshort⟩
  | noTarget source target rest hstack htarget =>
      obtain rfl := Option.some.inj h
      exact ⟨2, .target source target rest hstack (target?_eq_none_iff.mp htarget)⟩
  | sourceFails source target rest letter _ hstack htarget hsource =>
      obtain rfl := Option.some.inj h
      obtain rfl := eq_reference_of_target? htarget
      exact ⟨2, .source source letter rest _ hstack (resolve_eq_error_iff.mp hsource)⟩
  | done => exact absurd h (by simp)

variable [Power]

theorem step_short (hconsumes : token.consumes = 2) (hshort : machine.stack.length < 2) :
    machine.step token = machine.fail (.stackUnderflow token.text machine.stack.length) := by
  obtain ⟨stack, bindings⟩ := machine
  cases token with
  | operator op =>
      match stack, hshort with
      | [], _ => rfl
      | [_], _ => rfl
  | assign =>
      match stack, hshort with
      | [], _ => rfl
      | [_], _ => rfl
  | _ => exact absurd hconsumes (by simp [Token.consumes])

theorem Fails.step_eq (h : machine.Fails token error count) :
    machine.step token = ⟨⟨machine.stack.drop count, machine.bindings⟩, some error, []⟩ := by
  obtain ⟨stack, bindings⟩ := machine
  cases h with
  | unknown text => rfl
  | short _ hconsumes hshort => exact step_short hconsumes hshort
  | right op right left rest _ hstack hright =>
      obtain rfl : stack = right :: left :: rest := hstack
      simp only [step, operate, resolve_eq_error_iff.mpr hright]
      rfl
  | left op right left rest rhs _ hstack hright hleft =>
      obtain rfl : stack = right :: left :: rest := hstack
      simp only [step, operate, hright, resolve_eq_error_iff.mpr hleft]
      rfl
  | zeroDivisor right left rest negative lhs hstack hright hleft =>
      obtain rfl : stack = right :: left :: rest := hstack
      simp only [step, operate, hright, hleft]
      rfl
  | target source target rest hstack htarget =>
      obtain rfl : stack = source :: target :: rest := hstack
      simp only [step, store, target?_eq_none_iff.mpr htarget]
      rfl
  | source source letter rest _ hstack hsource =>
      obtain rfl : stack = source :: .reference letter.name :: rest := hstack
      simp only [step, store, target?, Letter.ofName?_name, resolve_eq_error_iff.mpr hsource]
      rfl

theorem exists_fails_operator (op : Operator) (h : (machine.operate op).failure = some error) :
    ∃ count, machine.Fails (.operator op) error count := by
  have hcases := machine.operate_cases op
  generalize machine.operate op = reaction at hcases h
  cases hcases with
  | short hshort =>
      obtain rfl := Option.some.inj h
      exact ⟨0, .short (.operator op) rfl hshort⟩
  | rightFails right left rest _ hstack hright =>
      obtain rfl := Option.some.inj h
      exact ⟨1, .right op right left rest _ hstack (resolve_eq_error_iff.mp hright)⟩
  | leftFails right left rest rhs _ hstack hright hleft =>
      obtain rfl := Option.some.inj h
      exact ⟨2, .left op right left rest rhs _ hstack hright (resolve_eq_error_iff.mp hleft)⟩
  | noResult right left rest rhs lhs hstack hright hleft hresult =>
      obtain rfl := Option.some.inj h
      obtain ⟨rfl, negative, rfl⟩ := Operator.compute?_eq_none_iff.mp hresult
      exact ⟨2, .zeroDivisor right left rest negative lhs hstack hright hleft⟩
  | done => exact absurd h (by simp)

theorem failure_step_iff :
    (machine.step token).failure = some error ↔ ∃ count, machine.Fails token error count := by
  constructor
  · intro h
    cases token with
    | blank => exact absurd h (by simp [step])
    | number numeral => exact absurd h (by simp [step, push])
    | «variable» letter => exact absurd h (by simp [step, push])
    | operator op => exact exists_fails_operator op h
    | assign => exact exists_fails_assign h
    | unknown text =>
        obtain rfl := Option.some.inj h
        exact ⟨0, .unknown text⟩
  · rintro ⟨count, hfails⟩
    rw [hfails.step_eq]

-- A token that goes through works on the cells that it takes and on no other.
theorem stack_step_of_done (h : (machine.step token).failure = none) :
    token.consumes ≤ machine.stack.length ∧ ∃ pushed, pushed.length = token.produces ∧
      (machine.step token).machine.stack = pushed ++ machine.stack.drop token.consumes := by
  cases token with
  | blank => exact ⟨Nat.zero_le _, [], rfl, rfl⟩
  | number numeral => exact ⟨Nat.zero_le _, [_], rfl, rfl⟩
  | «variable» letter => exact ⟨Nat.zero_le _, [_], rfl, rfl⟩
  | unknown text => exact absurd h (by simp [step, fail])
  | operator op =>
      have hcases := machine.operate_cases op
      change (machine.operate op).failure = none at h
      change _ ∧ ∃ pushed, _ ∧ (machine.operate op).machine.stack = _
      generalize machine.operate op = reaction at hcases h
      cases hcases with
      | done right left rest rhs lhs value hstack =>
          refine ⟨by simp [hstack, Token.consumes], [.number value], rfl, ?_⟩
          simp [hstack, Token.consumes]
      | _ => exact absurd h (by simp [fail])
  | assign =>
      have hcases := machine.store_cases
      change machine.store.failure = none at h
      change _ ∧ ∃ pushed, _ ∧ machine.store.machine.stack = _
      generalize machine.store = reaction at hcases h
      cases hcases with
      | done source target rest letter value hstack =>
          refine ⟨by simp [hstack, Token.consumes], [], rfl, ?_⟩
          simp [hstack, Token.consumes]
      | _ => exact absurd h (by simp [fail])

end Machine

-- What a token leaves behind, whatever is on the stack. It fails in the ways above and in no other,
-- and then the variables are as they were and the stack has lost so many cells from its top and
-- nothing else. If it does not fail, all cells below those that it works on are still there.
theorem failing_token_leaves [Power] (machine : Machine) (text : String) :
    let token := Token.read text
    let reaction := machine.step token
    (∀ error, reaction.failure = some error ↔ ∃ count, machine.Fails token error count) ∧
    (∀ error count, machine.Fails token error count → count ≤ machine.stack.length ∧
      reaction.machine.stack = machine.stack.drop count ∧
      reaction.machine.bindings = machine.bindings) ∧
    (reaction.failure = none → token.consumes ≤ machine.stack.length ∧
      ∃ pushed, pushed.length = token.produces ∧
        reaction.machine.stack = pushed ++ machine.stack.drop token.consumes) := by
  intro token reaction
  refine ⟨fun error => Machine.failure_step_iff, ?_, Machine.stack_step_of_done⟩
  intro error count hfails
  have hstep : reaction = _ := hfails.step_eq
  refine ⟨hfails.count_le, ?_, ?_⟩
  · rw [hstep]
  · rw [hstep]

-- The target is no letter and the value above it is foreign: it is the target that is reported.
theorem failing_token_leaves_hostile :
    let machine : Machine := ⟨[.foreign "x", .reference "AB", .number .one], .empty⟩
    let reaction := machine.step (Token.read "=")
    reaction.failure = some (.invalidTarget (.cell (.reference "AB"))) ∧
      reaction.machine.stack = [.number .one] := by
  intro machine reaction
  have hread : Token.read "=" = .assign := Token.read_mark
  have htarget : ∀ letter : Letter, Cell.reference "AB" ≠ .reference letter.name := by
    rw [← Machine.target?_eq_none_iff]
    decide
  have hfails : machine.Fails (Token.read "=") (.invalidTarget (.cell (.reference "AB"))) 2 := by
    rw [hread]
    exact .target (.foreign "x") (.reference "AB") [.number .one] rfl htarget
  obtain ⟨hfailure, hleaves, -⟩ := failing_token_leaves machine "="
  exact ⟨(hfailure _).mpr ⟨2, hfails⟩, (hleaves _ 2 hfails).2.1⟩

end PostfixCalc
