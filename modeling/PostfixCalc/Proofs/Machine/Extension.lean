import PostfixCalc.Proofs.Bindings
import PostfixCalc.Proofs.Machine.Run
import PostfixCalc.Proofs.Machine.Step

namespace PostfixCalc

namespace Bindings

-- Whatever has a value in the smaller bindings has it in the larger ones, which may have more.
def Extends (larger smaller : Bindings) : Prop :=
  ∀ letter value, smaller.get? letter = some value → larger.get? letter = some value

-- A letter has the value that the upper bindings give it, or else that of the lower ones.
def IsLaidOver (result upper lower : Bindings) : Prop :=
  ∀ letter, result.get? letter = (upper.get? letter).or (lower.get? letter)

theorem Extends.isLaidOver {larger smaller : Bindings} (h : larger.Extends smaller) :
    larger.IsLaidOver smaller larger := by
  intro letter
  cases hvalue : smaller.get? letter with
  | none => rfl
  | some value => exact h letter value hvalue

theorem IsLaidOver.extends {result upper lower : Bindings} (h : result.IsLaidOver upper lower) :
    result.Extends upper := by
  intro letter value hvalue
  rw [h letter, hvalue, Option.some_or]

theorem IsLaidOver.get?_of_none {result upper lower : Bindings}
    (h : result.IsLaidOver upper lower) {letter : Letter} (hnone : upper.get? letter = none) :
    result.get? letter = lower.get? letter := by
  rw [h letter, hnone, Option.none_or]

theorem IsLaidOver.set {result upper lower : Bindings} (h : result.IsLaidOver upper lower)
    (letter : Letter) (value : Binary64) :
    (result.set letter value).IsLaidOver (upper.set letter value) lower := by
  intro other
  by_cases heq : other = letter
  · rw [heq, get?_set_self, get?_set_self, Option.some_or]
  · rw [get?_set_of_ne result value heq, get?_set_of_ne upper value heq]
    exact h other

-- A name that the larger bindings read otherwise is one that the smaller ones cannot read.
theorem Extends.lookup_eq {larger smaller : Bindings} (h : larger.Extends smaller) (name : String) :
    smaller.lookup name = .error (.unassignedVariable name) ∨
      larger.lookup name = smaller.lookup name := by
  cases hletter : Letter.ofName? name with
  | none => exact .inl (smaller.lookup_of_ofName?_eq_none hletter)
  | some letter =>
      obtain rfl := Letter.ofName?_eq_some_iff.mp hletter
      cases hvalue : smaller.get? letter with
      | none => exact .inl (by rw [lookup_name, hvalue])
      | some value =>
          right
          rw [lookup_name, lookup_name, hvalue, h letter value hvalue]

end Bindings

-- That a name has no value, and nothing else.
def EvalError.IsUnassigned : EvalError → Prop
  | .unassignedVariable _ => True
  | _ => False

namespace Machine

-- Two machines with one stack, of which the one has values for more letters than the other, namely
-- those that the lower bindings give them.
structure Extends (lower : Bindings) (larger smaller : Machine) : Prop where
  stack : larger.stack = smaller.stack
  bindings : larger.bindings.IsLaidOver smaller.bindings lower

theorem Extends.resolve_eq {lower : Bindings} {larger smaller : Machine}
    (h : larger.Extends lower smaller) (cell : Cell) :
    (∃ error, smaller.resolve cell = .error error ∧ error.IsUnassigned) ∨
      larger.resolve cell = smaller.resolve cell := by
  cases cell with
  | number value => exact .inr rfl
  | foreign text => exact .inr rfl
  | reference name =>
      rcases h.bindings.extends.lookup_eq name with hmissing | hsame
      · exact .inl ⟨_, hmissing, trivial⟩
      · exact .inr hsame

theorem Extends.top_eq {lower : Bindings} {larger smaller : Machine}
    (h : larger.Extends lower smaller) :
    (∃ error, smaller.top = .error error ∧ error.IsUnassigned) ∨ larger.top = smaller.top := by
  unfold top
  rw [h.stack]
  cases smaller.stack with
  | nil => exact .inr rfl
  | cons cell rest =>
      rcases h.resolve_eq cell with ⟨error, hmissing, herror⟩ | hsame
      · exact .inl ⟨error, by simp only [hmissing, Except.map], herror⟩
      · exact .inr (by simp only [hsame])

end Machine

-- Unless it failed for want of a value on the smaller side, a step went the same way on both.
def Reaction.Follows (lower : Bindings) (larger smaller : Reaction) : Prop :=
  (∃ error, smaller.failure = some error ∧ error.IsUnassigned) ∨
    larger.failure = smaller.failure ∧ larger.machine.Extends lower smaller.machine

namespace Machine

variable {lower : Bindings} {larger smaller : Machine}

theorem store_follows (h : larger.Extends lower smaller) :
    larger.store.Follows lower smaller.store := by
  obtain ⟨stack, others⟩ := larger
  obtain ⟨_, bindings⟩ := smaller
  obtain rfl := h.stack
  match stack with
  | [] => exact .inr ⟨rfl, h⟩
  | [cell] => exact .inr ⟨rfl, h⟩
  | source :: target :: rest =>
      simp only [store]
      cases target? target with
      | none => exact .inr ⟨rfl, rfl, h.bindings⟩
      | some letter =>
          simp only
          rcases h.resolve_eq source with ⟨error, hmissing, herror⟩ | hsource
          · left
            rw [hmissing]
            exact ⟨error, rfl, herror⟩
          rw [hsource]
          cases resolve ⟨source :: target :: rest, bindings⟩ source with
          | error error => exact .inr ⟨rfl, rfl, h.bindings⟩
          | ok value => exact .inr ⟨rfl, rfl, h.bindings.set letter value⟩

theorem push_follows (cell : Cell) (h : larger.Extends lower smaller) :
    (larger.push cell).Follows lower (smaller.push cell) :=
  .inr ⟨rfl, congrArg (cell :: ·) h.stack, h.bindings⟩

variable [Power]

theorem operate_follows (op : Operator) (h : larger.Extends lower smaller) :
    (larger.operate op).Follows lower (smaller.operate op) := by
  obtain ⟨stack, others⟩ := larger
  obtain ⟨_, bindings⟩ := smaller
  obtain rfl := h.stack
  match stack with
  | [] => exact .inr ⟨rfl, h⟩
  | [cell] => exact .inr ⟨rfl, h⟩
  | right :: left :: rest =>
      simp only [operate]
      rcases h.resolve_eq right with ⟨error, hmissing, herror⟩ | hright
      · left
        rw [hmissing]
        exact ⟨error, rfl, herror⟩
      rw [hright]
      cases resolve ⟨right :: left :: rest, bindings⟩ right with
      | error error => exact .inr ⟨rfl, rfl, h.bindings⟩
      | ok rhs =>
          simp only
          rcases h.resolve_eq left with ⟨error, hmissing, herror⟩ | hleft
          · left
            rw [hmissing]
            exact ⟨error, rfl, herror⟩
          rw [hleft]
          cases resolve ⟨right :: left :: rest, bindings⟩ left with
          | error error => exact .inr ⟨rfl, rfl, h.bindings⟩
          | ok lhs =>
              simp only
              cases op.compute? lhs rhs with
              | none => exact .inr ⟨rfl, rfl, h.bindings⟩
              | some value => exact .inr ⟨rfl, rfl, h.bindings⟩

theorem step_follows (token : Token) (h : larger.Extends lower smaller) :
    (larger.step token).Follows lower (smaller.step token) := by
  cases token with
  | blank => exact .inr ⟨rfl, h⟩
  | number numeral => exact push_follows _ h
  | operator op => exact operate_follows op h
  | assign => exact store_follows h
  | «variable» letter => exact push_follows _ h
  | unknown text => exact .inr ⟨rfl, h⟩

theorem run_follows (tokens : List Token) (h : larger.Extends lower smaller) :
    (larger.run tokens).Follows lower (smaller.run tokens) := by
  induction tokens generalizing larger smaller with
  | nil => exact .inr ⟨rfl, h⟩
  | cons token rest ih =>
      rcases step_follows token h with ⟨error, hmissing, herror⟩ | ⟨hfailure, hmachine⟩
      · rw [run_cons_failed rest hmissing]
        exact .inl ⟨error, hmissing, herror⟩
      cases hstep : (smaller.step token).failure with
      | some error =>
          rw [run_cons_failed rest hstep, run_cons_failed rest (hfailure.trans hstep)]
          exact .inr ⟨hfailure, hmachine⟩
      | none =>
          have hrest := ih hmachine
          unfold Reaction.Follows at hrest ⊢
          rw [failure_run_cons rest hstep, machine_run_cons rest hstep,
            failure_run_cons rest (hfailure.trans hstep),
            machine_run_cons rest (hfailure.trans hstep)]
          exact hrest

-- A line that finds all the values it needs is not told apart by more of them.
theorem evaluate_follows (line : String)
    (h : larger.bindings.IsLaidOver smaller.bindings lower) :
    (∃ error, (smaller.evaluate line).result = .error error ∧ error.IsUnassigned) ∨
      (larger.evaluate line).result = (smaller.evaluate line).result ∧
        (larger.evaluate line).machine.Extends lower (smaller.evaluate line).machine := by
  have hreset : larger.reset.Extends lower smaller.reset := ⟨rfl, h⟩
  rcases run_follows (tokens line) hreset with ⟨error, hmissing, herror⟩ | ⟨hfailure, hmachine⟩
  · exact .inl ⟨error, result_of_failure hmissing, herror⟩
  cases hrun : (smaller.reset.run (tokens line)).failure with
  | some error =>
      right
      rw [result_of_failure hrun, result_of_failure (hfailure.trans hrun)]
      exact ⟨rfl, hmachine⟩
  | none =>
      rw [result_of_done hrun, result_of_done (hfailure.trans hrun)]
      exact hmachine.top_eq.imp_right fun htop => ⟨htop, hmachine⟩

end Machine

-- Values for more letters can cure a line of an unassigned letter and change nothing else: a line
-- that does not fail for want of a value ends in the same way and with the same stack. It gives the
-- same values to the same letters, and the letters that it leaves unassigned keep the values that
-- they have.
theorem assigning_more_cures [Power] (line : String) {larger smaller : Machine}
    (hextends : larger.bindings.Extends smaller.bindings)
    (hassigned : ∀ name,
      (smaller.evaluate line).result ≠ .error (.unassignedVariable name)) :
    (larger.evaluate line).result = (smaller.evaluate line).result ∧
      (larger.evaluate line).machine.stack = (smaller.evaluate line).machine.stack ∧
      (larger.evaluate line).machine.bindings.Extends
        (smaller.evaluate line).machine.bindings ∧
      ∀ letter, (smaller.evaluate line).machine.bindings.get? letter = none →
        (larger.evaluate line).machine.bindings.get? letter = larger.bindings.get? letter := by
  rcases Machine.evaluate_follows line hextends.isLaidOver with
    ⟨error, hmissing, herror⟩ | ⟨hresult, hmachine⟩
  · cases error with
    | unassignedVariable name => exact absurd hmissing (hassigned name)
    | _ => exact herror.elim
  · exact ⟨hresult, hmachine.stack, hmachine.bindings.extends,
      fun _ hnone => hmachine.bindings.get?_of_none hnone⟩

-- The line overwrites A, which has a value in the larger bindings only, and fails after that.
theorem assigning_more_cures_overwritten :
    let line := "A B = A 0 /"
    let three := Binary64.ofInt 3
    let smaller : Machine := ⟨[], Bindings.empty.set ⟨1⟩ three⟩
    let larger : Machine :=
      ⟨[.foreign "left over"], ((Bindings.empty.set ⟨0⟩ .nan).set ⟨1⟩ three).set ⟨2⟩ .one⟩
    larger.bindings.Extends smaller.bindings ∧
      (larger.evaluate line).result = .error .divisionByZero ∧
      (larger.evaluate line).machine.bindings.get? ⟨0⟩ = some three ∧
      (larger.evaluate line).machine.bindings.get? ⟨2⟩ = some .one := by
  intro line three smaller larger
  have hextends : larger.bindings.Extends smaller.bindings := by
    rintro ⟨index⟩ value hvalue
    have hsame : ∀ index, smaller.bindings.get? ⟨index⟩ = none ∨
        larger.bindings.get? ⟨index⟩ = smaller.bindings.get? ⟨index⟩ := by decide +kernel
    rcases hsame index with hnone | heq
    · exact absurd (hnone.symm.trans hvalue) (by simp)
    · exact heq.trans hvalue
  have hresult : (smaller.evaluate line).result = .error .divisionByZero := by decide +kernel
  have hcured := assigning_more_cures line hextends (by simp [hresult])
  refine ⟨hextends, hcured.1.trans hresult, ?_, ?_⟩
  · exact hcured.2.2.1 ⟨0⟩ three (by decide +kernel)
  · rw [hcured.2.2.2 ⟨2⟩ (by decide +kernel)]
    decide +kernel

end PostfixCalc
