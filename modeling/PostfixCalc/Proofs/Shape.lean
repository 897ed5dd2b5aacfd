import Mathlib.Data.List.Forall2
import PostfixCalc.Shape
import PostfixCalc.Proofs.Machine.Run
import PostfixCalc.Proofs.Machine.Step
import PostfixCalc.Proofs.Token

namespace PostfixCalc

-- The errors that the shape of a line says nothing about.
def EvalError.IsValueError : EvalError → Prop
  | .unassignedVariable _ | .divisionByZero => True
  | _ => False

-- The token that an error shows.
def EvalError.token? : EvalError → Option String
  | .stackUnderflow token _ | .unknownToken token => some token
  | _ => none

namespace Shape

def Fits : Shape → Cell → Prop
  | .number, .number _ => True
  | .reference letter, .reference name => name = letter.name
  | _, _ => False

-- A verdict on the shapes of a stack holds good for what the machine does with the stack.
def Predicts (verdict : Except ShapeError (List Shape)) (reaction : Reaction) : Prop :=
  match verdict, reaction.failure with
  | .ok shapes, none => List.Forall₂ Fits shapes reaction.machine.stack
  | .ok _, some error => error.IsValueError
  | .error _, none => False
  | .error fault, some error => fault.Shows error

end Shape

theorem Bindings.isValueError_lookup {bindings : Bindings} {name : String} {error : EvalError}
    (h : bindings.lookup name = .error error) : error.IsValueError := by
  unfold lookup at h
  split at h
  · exact absurd h (by simp)
  · obtain rfl := Except.error.inj h
    trivial

namespace Machine

theorem isValueError_resolve {machine : Machine} {shape : Shape} {cell : Cell} {error : EvalError}
    (hfits : shape.Fits cell) (h : machine.resolve cell = .error error) : error.IsValueError := by
  cases cell with
  | number value => exact absurd h (by simp [resolve])
  | reference name => exact Bindings.isValueError_lookup h
  | foreign text => cases shape <;> exact hfits.elim

theorem store_predicted (machine : Machine) (shapes : List Shape)
    (hfits : List.Forall₂ Shape.Fits shapes machine.stack) :
    Shape.Predicts (Shape.step shapes .assign) machine.store := by
  obtain ⟨stack, bindings⟩ := machine
  match shapes, stack, hfits with
  | [], [], .nil => exact .stackUnderflow .assign 0
  | [_], [_], .cons _ .nil => exact .stackUnderflow .assign 1
  | _ :: .number :: _, _ :: .number value :: _, .cons _ (.cons _ _) => exact .numberTarget value
  | _ :: .reference letter :: rest, source :: .reference name :: below,
      .cons hsource (.cons hname hrest) =>
      obtain rfl := hname
      simp only [Shape.step, store, target?, Letter.ofName?_name]
      cases hvalue : resolve ⟨source :: .reference letter.name :: below, bindings⟩ source with
      | error error => exact isValueError_resolve hsource hvalue
      | ok value => exact hrest

variable [Power]

theorem operate_predicted (machine : Machine) (op : Operator) (shapes : List Shape)
    (hfits : List.Forall₂ Shape.Fits shapes machine.stack) :
    Shape.Predicts (Shape.step shapes (.operator op)) (machine.operate op) := by
  obtain ⟨stack, bindings⟩ := machine
  match shapes, stack, hfits with
  | [], [], .nil => exact .stackUnderflow (.operator op) 0
  | [_], [_], .cons _ .nil => exact .stackUnderflow (.operator op) 1
  | _ :: _ :: rest, right :: left :: below, .cons hright (.cons hleft hrest) =>
      simp only [Shape.step, operate]
      cases hrhs : resolve ⟨right :: left :: below, bindings⟩ right with
      | error error => exact isValueError_resolve hright hrhs
      | ok rhs =>
          simp only
          cases hlhs : resolve ⟨right :: left :: below, bindings⟩ left with
          | error error => exact isValueError_resolve hleft hlhs
          | ok lhs =>
              simp only
              cases op.compute? lhs rhs with
              | none => trivial
              | some value => exact .cons trivial hrest

theorem step_predicted (machine : Machine) (token : Token) (shapes : List Shape)
    (hfits : List.Forall₂ Shape.Fits shapes machine.stack) :
    Shape.Predicts (Shape.step shapes token) (machine.step token) := by
  cases token with
  | blank => exact hfits
  | number numeral => exact .cons trivial hfits
  | operator op => exact operate_predicted machine op shapes hfits
  | assign => exact store_predicted machine shapes hfits
  | «variable» letter => exact .cons rfl hfits
  | unknown text => exact .unknownToken text

end Machine

theorem Shape.place_le_of_check {tokens : List Token} {shapes : List Shape} {place fatal : Nat}
    {fault : ShapeError} (h : check shapes place tokens = .error (fatal, fault)) :
    place ≤ fatal := by
  induction tokens generalizing shapes place with
  | nil => exact absurd h (by simp [check])
  | cons token rest ih =>
      rw [check] at h
      split at h
      · exact Nat.le_of_succ_le (ih h)
      · simp only [Except.error.injEq, Prod.mk.injEq] at h
        exact h.1.le

-- What the check of a whole line says of its run. A value may be missing before the run comes to
-- the token that the check objects to.
def Shape.PredictsRun [Power] (verdict : Except (Nat × ShapeError) (List Shape)) (place : Nat)
    (machine : Machine) (tokens : List Token) : Prop :=
  match verdict with
  | .ok shapes => Predicts (.ok shapes) (machine.run tokens)
  | .error (fatal, fault) => ∃ stop error, machine.FailsAt tokens stop error ∧
      (place + stop < fatal ∧ error.IsValueError ∨ place + stop = fatal ∧ fault.Shows error)

theorem Shape.PredictsRun.of_failed [Power] {machine : Machine} {token : Token} {rest : List Token}
    {shapes : List Shape} {place : Nat} {error : EvalError}
    (h : (machine.step token).failure = some error) (hvalue : error.IsValueError) :
    PredictsRun (check shapes (place + 1) rest) place machine (token :: rest) := by
  cases hverdict : check shapes (place + 1) rest with
  | ok final =>
      simp only [PredictsRun, Predicts, Machine.run_cons_failed rest h, h]
      exact hvalue
  | error fault =>
      have hplace := place_le_of_check hverdict
      exact ⟨0, error, Machine.failsAt_cons_zero h, .inl ⟨by omega, hvalue⟩⟩

theorem Shape.PredictsRun.of_done [Power] {machine : Machine} {token : Token} {rest : List Token}
    {verdict : Except (Nat × ShapeError) (List Shape)} {place : Nat}
    (h : (machine.step token).failure = none)
    (hlater : PredictsRun verdict (place + 1) (machine.step token).machine rest) :
    PredictsRun verdict place machine (token :: rest) := by
  cases verdict with
  | ok shapes =>
      simp only [PredictsRun, Predicts] at hlater ⊢
      rw [Machine.failure_run_cons rest h, Machine.machine_run_cons rest h]
      exact hlater
  | error fault =>
      obtain ⟨stop, error, hfails, hcause⟩ := hlater
      refine ⟨stop + 1, error, Machine.failsAt_cons_succ h hfails, ?_⟩
      rwa [← Nat.add_assoc, Nat.add_right_comm]

theorem Machine.run_predicted [Power] (machine : Machine) (tokens : List Token)
    (shapes : List Shape) (place : Nat) (hfits : List.Forall₂ Shape.Fits shapes machine.stack) :
    Shape.PredictsRun (Shape.check shapes place tokens) place machine tokens := by
  induction tokens generalizing machine shapes place with
  | nil => exact hfits
  | cons token rest ih =>
      have hstep := step_predicted machine token shapes hfits
      rw [Shape.check]
      cases hverdict : Shape.step shapes token with
      | error fault =>
          cases hfailure : (machine.step token).failure with
          | none => simp [Shape.Predicts, hverdict, hfailure] at hstep
          | some error =>
              simp only [Shape.Predicts, hverdict, hfailure] at hstep
              exact ⟨0, error, failsAt_cons_zero hfailure, .inr ⟨rfl, hstep⟩⟩
      | ok next =>
          cases hfailure : (machine.step token).failure with
          | none =>
              simp only [Shape.Predicts, hverdict, hfailure] at hstep
              exact .of_done hfailure (ih _ next (place + 1) hstep)
          | some error =>
              simp only [Shape.Predicts, hverdict, hfailure] at hstep
              exact .of_failed hfailure hstep

namespace Machine

theorem token?_resolve {machine : Machine} {cell : Cell} {error : EvalError}
    (h : machine.resolve cell = .error error) : error.token? = none := by
  cases cell with
  | number value => exact absurd h (by simp [resolve])
  | reference name =>
      simp only [resolve, Bindings.lookup] at h
      split at h
      · exact absurd h (by simp)
      · obtain rfl := Except.error.inj h
        rfl
  | foreign text =>
      obtain rfl := Except.error.inj h
      rfl

theorem isValueError_top {machine : Machine} {shapes : List Shape} {error : EvalError}
    (hfits : List.Forall₂ Shape.Fits shapes machine.stack) (h : machine.top = .error error) :
    error.IsValueError := by
  obtain ⟨cell, rest, hstack, hresolve⟩ := exists_of_top_error h
  rw [hstack] at hfits
  obtain ⟨shape, others, hcell, _, rfl⟩ := List.forall₂_cons_right_iff.mp hfits
  exact isValueError_resolve hcell hresolve

variable [Power]

-- An error that shows a token shows the one that failed.
theorem token?_step {machine : Machine} {token : Token} {error : EvalError} {text : String}
    (h : (machine.step token).failure = some error) (htext : error.token? = some text) :
    token.text = text := by
  have hresolve : ∀ cell, machine.resolve cell ≠ .error error := by
    intro cell hcell
    exact absurd (token?_resolve hcell) (by simp [htext])
  cases token with
  | blank => exact absurd h (by simp [step])
  | number numeral => exact absurd h (by simp [step, push])
  | «variable» letter => exact absurd h (by simp [step, push])
  | unknown word =>
      obtain rfl := Option.some.inj h
      exact Option.some.inj htext
  | operator op =>
      have hcases := machine.operate_cases op
      change (machine.operate op).failure = some error at h
      generalize machine.operate op = reaction at h hcases
      cases hcases with
      | short =>
          obtain rfl := Option.some.inj h
          exact Option.some.inj htext
      | rightFails right left rest _ hstack hright =>
          obtain rfl := Option.some.inj h
          exact absurd hright (hresolve right)
      | leftFails right left rest rhs _ hstack hright hleft =>
          obtain rfl := Option.some.inj h
          exact absurd hleft (hresolve left)
      | noResult =>
          obtain rfl := Option.some.inj h
          exact absurd htext (by simp [EvalError.token?])
      | done => exact absurd h (by simp)
  | assign =>
      have hcases := machine.store_cases
      change machine.store.failure = some error at h
      generalize machine.store = reaction at h hcases
      cases hcases with
      | short =>
          obtain rfl := Option.some.inj h
          exact Option.some.inj htext
      | noTarget =>
          obtain rfl := Option.some.inj h
          exact absurd htext (by simp [EvalError.token?])
      | sourceFails source target rest letter _ hstack htarget hsource =>
          obtain rfl := Option.some.inj h
          exact absurd hsource (hresolve source)
      | done => exact absurd h (by simp)

theorem FailsAt.word {machine : Machine} {line : String} {place : Nat} {error : EvalError}
    (h : machine.FailsAt (tokens line) place error) :
    ∀ text ∈ error.token?, (Text.words line)[place]? = some text := by
  intro text htext
  obtain ⟨_, token, hplace, hfailure⟩ := h
  rw [tokens, List.getElem?_map, Option.map_eq_some_iff] at hplace
  obtain ⟨word, hword, rfl⟩ := hplace
  rw [hword, ← token?_step hfailure htext, Token.text_read]

end Machine

-- The check of the shapes tells which structural error a line has, if it has one, and where. The
-- values can only bring forth an error of theirs before it.
theorem check_predicts_evaluate [Power] (machine : Machine) (line : String) :
    match Shape.check [] 0 (Machine.tokens line) with
    | .ok shapes =>
      (∀ error, (machine.evaluate line).result = .error error → error.IsValueError) ∧
        ((machine.evaluate line).result = .ok none ↔
          shapes = [] ∧ ∀ error, (machine.evaluate line).result ≠ .error error)
    | .error (fatal, fault) => ∃ stop error,
      (machine.evaluate line).result = .error error ∧
        machine.reset.FailsAt (Machine.tokens line) stop error ∧
        (∀ text ∈ error.token?, (Text.words line)[stop]? = some text) ∧
        (stop < fatal ∧ error.IsValueError ∨ stop = fatal ∧ fault.Shows error) := by
  have hrun := machine.reset.run_predicted (Machine.tokens line) [] 0 .nil
  cases hverdict : Shape.check [] 0 (Machine.tokens line) with
  | error fault =>
      obtain ⟨fatal, fault⟩ := fault
      rw [hverdict] at hrun
      obtain ⟨stop, error, hfails, hcause⟩ := hrun
      rw [Nat.zero_add] at hcause
      exact ⟨stop, error, Machine.result_of_failure hfails.failure_run, hfails, hfails.word, hcause⟩
  | ok shapes =>
      rw [hverdict] at hrun
      cases hfailure : (machine.reset.run (Machine.tokens line)).failure with
      | some error =>
          simp only [Shape.PredictsRun, Shape.Predicts, hfailure] at hrun
          have hresult := Machine.result_of_failure hfailure
          simp only [hresult]
          exact ⟨fun other ho => Except.error.inj ho ▸ hrun, by simp⟩
      | none =>
          simp only [Shape.PredictsRun, Shape.Predicts, hfailure] at hrun
          have hresult := Machine.result_of_done hfailure
          simp only [hresult]
          refine ⟨fun error he => Machine.isValueError_top hrun he, ?_⟩
          rw [Machine.top_eq_none_iff]
          constructor
          · intro hstack
            rw [hstack] at hrun
            refine ⟨List.forall₂_nil_right_iff.mp hrun, ?_⟩
            intro error he
            have hnone := Machine.top_eq_none_iff.mpr hstack
            exact absurd (hnone.symm.trans he) (by simp)
          · rintro ⟨rfl, _⟩
            exact List.forall₂_nil_left_iff.mp hrun

end PostfixCalc
