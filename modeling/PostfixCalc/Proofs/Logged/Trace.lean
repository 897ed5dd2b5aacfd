import PostfixCalc.Logged.Trace
import PostfixCalc.Proofs.Bindings
import PostfixCalc.Proofs.Logged

namespace PostfixCalc

namespace Machine

variable {machine next : Machine} {token : Token} {told : Option Record}

variable [Power]

theorem Succeeds.step_eq (h : machine.Succeeds token next told) :
    machine.step token = ⟨next, none, told.toList⟩ := by
  cases h with
  | blank => rfl
  | number numeral => rfl
  | «variable» letter => rfl
  | operator op right left rest rhs lhs value hstack hright hleft hvalue =>
      simp only [step, operate, hstack, hright, hleft, hvalue, push]
      rfl
  | assign source letter rest value hstack hsource =>
      simp only [step, store, hstack, target?, Letter.ofName?_name, hsource]
      rfl

-- Whatever a token has done to the stack before it fails, it has told nothing by then.
theorem succeeds_or_fails (machine : Machine) (token : Token) :
    (∃ next told, machine.Succeeds token next told) ∨
      ∃ error, (machine.step token).failure = some error ∧ (machine.step token).records = [] := by
  cases token with
  | blank => exact .inl ⟨_, _, .blank⟩
  | number numeral => exact .inl ⟨_, _, .number numeral⟩
  | «variable» letter => exact .inl ⟨_, _, .variable letter⟩
  | unknown text => exact .inr ⟨_, rfl, rfl⟩
  | operator op =>
      have hcases := machine.operate_cases op
      change _ ∨ ∃ error, (machine.operate op).failure = some error ∧ (machine.operate op).records = []
      generalize machine.operate op = reaction at hcases ⊢
      cases hcases with
      | short => exact .inr ⟨_, rfl, rfl⟩
      | rightFails => exact .inr ⟨_, rfl, rfl⟩
      | leftFails => exact .inr ⟨_, rfl, rfl⟩
      | noResult => exact .inr ⟨_, rfl, rfl⟩
      | done right left rest rhs lhs value hstack hright hleft hresult =>
          exact .inl ⟨_, _, .operator op right left rest rhs lhs value hstack hright hleft hresult⟩
  | assign =>
      have hcases := machine.store_cases
      change _ ∨ ∃ error, machine.store.failure = some error ∧ machine.store.records = []
      generalize machine.store = reaction at hcases ⊢
      cases hcases with
      | short => exact .inr ⟨_, rfl, rfl⟩
      | noTarget => exact .inr ⟨_, rfl, rfl⟩
      | sourceFails => exact .inr ⟨_, rfl, rfl⟩
      | done source target rest letter value hstack htarget hsource =>
          obtain rfl := eq_reference_of_target? htarget
          exact .inl ⟨_, _, .assign source letter rest value hstack hsource⟩

theorem tells_run (machine : Machine) (tokens : List Token) :
    Tells machine tokens (machine.run tokens).records (machine.run tokens).machine
      (machine.run tokens).failure := by
  induction tokens generalizing machine with
  | nil => exact .done machine
  | cons token rest ih =>
      rcases machine.succeeds_or_fails token with ⟨next, told, hsucceeds⟩ | ⟨error, hfails, hsilent⟩
      · rw [run_cons, hsucceeds.step_eq]
        exact .goesOn hsucceeds (ih next)
      · have hnever (next : Machine) (told : Option Record) : ¬ machine.Succeeds token next told := by
          intro hsucceeds
          rw [hsucceeds.step_eq] at hfails
          cases hfails
        rw [run_cons_failed rest hfails, hfails, hsilent]
        exact .stops hnever hfails

theorem tellsLine_evaluate (machine : Machine) (line : String) :
    machine.TellsLine line (machine.evaluate line).records (machine.evaluate line).machine
      (machine.evaluate line).result := by
  have htells := machine.reset.tells_run (tokens line)
  cases hfailure : (machine.reset.run (tokens line)).failure with
  | some error =>
      rw [hfailure] at htells
      rw [records_of_error (result_of_failure hfailure), result_of_failure hfailure]
      exact .tokenFails htells
  | none =>
      rw [hfailure] at htells
      have hresult := result_of_done hfailure
      cases htop : (machine.reset.run (tokens line)).machine.top with
      | error error =>
          rw [htop] at hresult
          rw [records_of_error hresult, hresult]
          exact .topFails htells htop
      | ok value =>
          rw [htop] at hresult
          rw [records_of_ok hresult, hresult]
          exact .value htells htop

end Machine

namespace Bindings

theorem replay_append {bindings between after : Bindings} {first second : List (String × Binary64)}
    (hfirst : bindings.replay first = .ok between) (hsecond : between.replay second = .ok after) :
    bindings.replay (first ++ second) = .ok after := by
  rw [replay, List.foldlM_append]
  change (bindings.replay first >>= fun between => between.replay second) = _
  rw [hfirst]
  exact hsecond

end Bindings

-- The assignments that some records tell of lead from the bindings of one machine to those of another.
def Machine.Rebuilds (machine : Machine) (records : List Record) (next : Machine) : Prop :=
  machine.bindings.replay (records.filterMap Record.assigned?) = .ok next.bindings

namespace Machine

variable {machine next last : Machine} {first later records : List Record}

theorem Rebuilds.append (hfirst : machine.Rebuilds first next) (hlater : next.Rebuilds later last) :
    machine.Rebuilds (first ++ later) last := by
  rw [Rebuilds, List.filterMap_append]
  exact Bindings.replay_append hfirst hlater

variable [Power]

theorem Succeeds.rebuilds {token : Token} {told : Option Record}
    (h : machine.Succeeds token next told) : machine.Rebuilds told.toList next := by
  cases h with
  | blank => rfl
  | number numeral => rfl
  | «variable» letter => rfl
  | operator => rfl
  | assign source letter rest value hstack hsource =>
      change machine.bindings.assign (.text letter.name) (.binary value) >>= pure = _
      rw [machine.bindings.assign_letter letter rfl]
      rfl

theorem bindings_of_fails {token : Token} {error : EvalError}
    (h : (machine.step token).failure = some error) :
    (machine.step token).machine.bindings = machine.bindings := by
  rcases machine.bindings_step token with hsame | ⟨letter, value, -, hnone, -⟩
  · exact hsame
  · rw [hnone] at h
    cases h

theorem Tells.rebuilds {tokens : List Token} {failure : Option EvalError}
    (h : Tells machine tokens records next failure) : machine.Rebuilds records next := by
  induction h with
  | done machine => rfl
  | goesOn hfirst _ ih => exact hfirst.rebuilds.append ih
  | stops _ hfails => exact congrArg Except.ok (bindings_of_fails hfails).symm

theorem TellsLine.rebuilds {line : String} {result : Except EvalError (Option Binary64)}
    (h : machine.TellsLine line records next result) : machine.Rebuilds records next := by
  -- the records around those of the tokens tell of no assignment
  have hwords {told : List Record} (htold : machine.reset.Rebuilds told next) :
      machine.Rebuilds (.tokens (Text.words line) :: told) next := htold
  have hfailed {told : List Record} {error : EvalError} (htold : machine.reset.Rebuilds told next) :
      machine.reset.Rebuilds (told ++ [.failed line error]) next := htold.append rfl
  cases h with
  | value htokens => exact hwords htokens.rebuilds
  | tokenFails htokens => exact hwords (hfailed htokens.rebuilds)
  | topFails htokens => exact hwords (hfailed htokens.rebuilds)

theorem TellsLines.rebuilds {lines : List String} {results : List (Except EvalError (Option Binary64))}
    (h : TellsLines machine lines records next results) : machine.Rebuilds records next := by
  induction h with
  | done machine => rfl
  | goesOn hfirst _ ih => exact hfirst.rebuilds.append ih

end Machine

namespace Logged

variable [Power]

-- The log of several lines is that of one line after the other.
theorem exists_tellsLines (level : Level) (lines : List String) (machine : Machine) :
    ∃ results records next, machine.TellsLines lines records next results ∧
      Does level (evaluateAll level lines) machine results next (records.map .record) := by
  induction lines generalizing machine with
  | nil => exact ⟨[], [], machine, .done machine, does_pure []⟩
  | cons line rest ih =>
      obtain ⟨results, records, next, htells, hdoes⟩ := ih (machine.evaluate line).machine
      refine ⟨_, _, next, .goesOn (machine.tellsLine_evaluate line) htells, ?_⟩
      rw [List.map_append]
      exact (does_evaluate level line machine).bind (hdoes.last (does_pure _))

end Logged

-- The full log of lines that are evaluated on one machine. Each line tells its words, then in the order
-- of the tokens one record for each operator and each assignment that goes through and none for any
-- other token, and then its error if it has one. The assignments that are told of, made once more
-- from the beginning, give the variables as they are in the end.
theorem trace_complete [Power] (stack : List Cell) (lines : List String) :
    let outcome := (Logged.evaluateAll .debug lines).run ⟨⟨stack, .empty⟩, []⟩
    ∃ records : List Record, outcome.2.written = records.map .record ∧
      Machine.TellsLines ⟨stack, .empty⟩ lines records outcome.2.machine outcome.1 ∧
      Bindings.empty.replay (records.filterMap Record.assigned?) = .ok outcome.2.machine.bindings := by
  obtain ⟨results, records, next, htells, hdoes⟩ :=
    Logged.exists_tellsLines .debug lines ⟨stack, .empty⟩
  have hall : (records.map Event.record).filter (·.visibleAt .debug) = records.map .record :=
    List.filter_eq_self.mpr fun event _ => event.visibleAt_debug
  intro outcome
  have houtcome : outcome = (results, ⟨next, records.map .record⟩) := by
    have hrun := hdoes []
    rwa [hall, List.nil_append] at hrun
  rw [houtcome]
  exact ⟨records, rfl, htells, htells.rebuilds⟩

example : ((Logged.evaluateAll .debug ["A 2 =", "1 B /", "A"]).run ⟨.initial, []⟩).2.written =
    [.record (.tokens ["A", "2", "="]), .record (.assignment "A" (.ofInt 2)),
      .record (.tokens ["1", "B", "/"]), .record (.failed "1 B /" (.unassignedVariable "B")),
      .record (.tokens ["A"])] := by decide +kernel

end PostfixCalc
