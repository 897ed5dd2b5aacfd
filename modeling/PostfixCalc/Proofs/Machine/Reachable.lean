import PostfixCalc.Session
import PostfixCalc.Proofs.Machine.Run
import PostfixCalc.Proofs.Machine.Step

namespace PostfixCalc

-- The errors that a line can have. A target that is refused is always a number: a name on the
-- stack is a letter, and nothing foreign gets there.
def EvalError.IsOrdinary : EvalError → Prop
  | .invalidOperand _ => False
  | .invalidTarget (.cell (.number _)) => True
  | .invalidTarget _ => False
  | _ => True

def Cell.IsProper : Cell → Prop
  | .number _ => True
  | .reference name => ∃ letter : Letter, name = letter.name
  | .foreign _ => False

def Machine.IsProper (machine : Machine) : Prop := ∀ cell ∈ machine.stack, cell.IsProper

-- A reaction that brings forth nothing but proper cells and ordinary errors.
structure Reaction.IsProper (reaction : Reaction) : Prop where
  machine : reaction.machine.IsProper
  failure : ∀ error, reaction.failure = some error → error.IsOrdinary

namespace Machine

theorem isProper_reset (machine : Machine) : machine.reset.IsProper := by
  intro cell hc
  exact absurd hc (by simp [reset])

theorem isOrdinary_resolve {machine : Machine} {cell : Cell} {error : EvalError}
    (hcell : cell.IsProper) (h : machine.resolve cell = .error error) : error.IsOrdinary := by
  cases cell with
  | number value => exact absurd h (by simp [resolve])
  | foreign text => exact hcell.elim
  | reference name =>
      simp only [resolve, Bindings.lookup] at h
      split at h
      · exact absurd h (by simp)
      · obtain rfl := Except.error.inj h
        trivial

theorem IsProper.of_subset {machine : Machine} {stack : List Cell} {bindings : Bindings}
    (h : machine.IsProper) (hstack : ∀ cell ∈ stack, cell.IsProper ∨ cell ∈ machine.stack) :
    IsProper ⟨stack, bindings⟩ := by
  intro cell hc
  exact (hstack cell hc).elim id (h cell)

theorem isProper_fail {machine : Machine} {error : EvalError} (h : machine.IsProper)
    (herror : error.IsOrdinary) : (machine.fail error).IsProper where
  machine := h
  failure := by
    intro other ho
    obtain rfl := Option.some.inj ho
    exact herror

theorem isProper_store {machine : Machine} (h : machine.IsProper) : machine.store.IsProper := by
  have hcases := machine.store_cases
  generalize machine.store = reaction at hcases ⊢
  cases hcases with
  | short hshort => exact isProper_fail h trivial
  | noTarget source target rest hstack htarget =>
      have hproper := h target (by simp [hstack])
      refine isProper_fail (h.of_subset (fun cell hc => .inr (by simp_all))) ?_
      cases target with
      | number value => trivial
      | foreign text => exact hproper.elim
      | reference name =>
          obtain ⟨letter, rfl⟩ := hproper
          exact absurd htarget (by simp [target?])
  | sourceFails source target rest letter error hstack htarget hsource =>
      refine isProper_fail (h.of_subset ?_) (isOrdinary_resolve (h source (by simp [hstack])) hsource)
      exact fun cell hc => .inr (by simp_all)
  | done source target rest letter value hstack htarget hsource =>
      exact ⟨h.of_subset (fun cell hc => .inr (by simp_all)), by simp⟩

theorem isProper_push {machine : Machine} {cell : Cell} (h : machine.IsProper)
    (hcell : cell.IsProper) : (machine.push cell).IsProper where
  machine := by
    intro other ho
    rcases List.mem_cons.mp ho with rfl | ho
    · exact hcell
    · exact h other ho
  failure := by simp [push]

variable [Power]

theorem isProper_operate {machine : Machine} (op : Operator) (h : machine.IsProper) :
    (machine.operate op).IsProper := by
  have hcases := machine.operate_cases op
  generalize machine.operate op = reaction at hcases ⊢
  cases hcases with
  | short hshort => exact isProper_fail h trivial
  | rightFails right left rest error hstack hright =>
      refine isProper_fail (h.of_subset ?_) (isOrdinary_resolve (h right (by simp [hstack])) hright)
      exact fun cell hc => .inr (by simp_all)
  | leftFails right left rest rhs error hstack hright hleft =>
      refine isProper_fail (h.of_subset ?_) (isOrdinary_resolve (h left (by simp [hstack])) hleft)
      exact fun cell hc => .inr (by simp_all)
  | noResult right left rest rhs lhs hstack hright hleft hresult =>
      refine isProper_fail (h.of_subset ?_) trivial
      exact fun cell hc => .inr (by simp_all)
  | done right left rest rhs lhs value hstack hright hleft hresult =>
      refine ⟨h.of_subset ?_, by simp⟩
      intro cell hc
      rcases List.mem_cons.mp hc with rfl | hc
      · exact .inl trivial
      · exact .inr (by simp [hstack, hc])

theorem isProper_step {machine : Machine} (token : Token) (h : machine.IsProper) :
    (machine.step token).IsProper := by
  cases token with
  | blank => exact ⟨h, by simp [step]⟩
  | number numeral => exact isProper_push h trivial
  | operator op => exact isProper_operate op h
  | assign => exact isProper_store h
  | «variable» letter => exact isProper_push h ⟨letter, rfl⟩
  | unknown text => exact isProper_fail h trivial

theorem isProper_run {machine : Machine} (tokens : List Token) (h : machine.IsProper) :
    (machine.run tokens).IsProper := by
  induction tokens generalizing machine with
  | nil => exact ⟨h, by simp [run]⟩
  | cons token rest ih =>
      have hstep := isProper_step token h
      cases hfailure : (machine.step token).failure with
      | some error =>
          rw [run_cons_failed rest hfailure]
          exact hstep
      | none =>
          have hrest := ih hstep.machine
          exact ⟨by rw [machine_run_cons rest hfailure]; exact hrest.machine,
            by rw [failure_run_cons rest hfailure]; exact hrest.failure⟩

theorem isProper_evaluate (machine : Machine) (line : String) :
    (machine.evaluate line).machine.IsProper :=
  (isProper_run (tokens line) machine.isProper_reset).machine

-- Whatever lay on the stack before, a line has none but ordinary errors.
theorem isOrdinary_evaluate {machine : Machine} {line : String} {error : EvalError}
    (h : (machine.evaluate line).result = .error error) : error.IsOrdinary := by
  have hrun := isProper_run (tokens line) machine.isProper_reset
  cases hfailure : (machine.reset.run (tokens line)).failure with
  | some other =>
      rw [result_of_failure hfailure] at h
      obtain rfl := Except.error.inj h
      exact hrun.failure _ hfailure
  | none =>
      rw [result_of_done hfailure] at h
      obtain ⟨cell, rest, hstack, hresolve⟩ := exists_of_top_error h
      exact isOrdinary_resolve (hrun.machine cell (by simp [hstack])) hresolve

theorem isProper_answer (machine : Machine) (line : String) :
    (machine.answer line).machine.IsProper := by
  have hline := machine.isProper_evaluate line
  simp only [answer]
  split
  · exact isProper_reset _
  · exact hline
  · exact hline

-- The machines that steps of certain kinds lead to.
inductive Reachable (allowed : Session.Step → Prop) : Machine → Prop where
  | initial : Reachable allowed .initial
  | perform (machine : Machine) (step : Session.Step) (hmachine : Reachable allowed machine)
      (hallowed : allowed step) : Reachable allowed (machine.perform step).1

end Machine

-- The steps that put no cells on the stack from outside.
def Session.Step.IsOrdinary : Session.Step → Prop
  | .evaluate _ | .answer _ | .token _ | .assign _ _ | .clear | .reset => True
  | _ => False

namespace Machine

variable [Power]

theorem isProper_perform {machine : Machine} {step : Session.Step} (h : machine.IsProper)
    (hstep : step.IsOrdinary) : (machine.perform step).1.IsProper := by
  cases step with
  | evaluate line => exact machine.isProper_evaluate line
  | answer line => exact machine.isProper_answer line
  | token text => exact (isProper_step (Token.read text) h).machine
  | reset => exact machine.isProper_reset
  | clear => exact h
  | assign name value =>
      simp only [perform]
      cases machine.bindings.assign name value <;> exact h
  | _ => exact hstep.elim

theorem Reachable.isProper {machine : Machine} (h : Reachable Session.Step.IsOrdinary machine) :
    machine.IsProper := by
  induction h with
  | initial => exact isProper_reset .initial
  | perform machine step _ hstep ih => exact isProper_perform ih hstep

end Machine

end PostfixCalc
