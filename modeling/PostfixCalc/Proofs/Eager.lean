import PostfixCalc.Eager
import PostfixCalc.Proofs.Machine.Frame

namespace PostfixCalc

-- Every cell on the stack can be resolved, and these are the values, top first.
def Machine.HasValues (machine : Machine) (values : List Binary64) : Prop :=
  machine.stack.map machine.resolve = values.map .ok

namespace Machine.HasValues

variable {machine : Machine} {values : List Binary64}

theorem length_eq (h : machine.HasValues values) : machine.stack.length = values.length := by
  simpa using congrArg List.length h

-- The value of a cell is the one in its place.
theorem exists_cons {cell : Cell} {rest : List Cell} (h : machine.HasValues values)
    (hstack : machine.stack = cell :: rest) :
    ∃ value below, values = value :: below ∧ machine.resolve cell = .ok value ∧
      HasValues { machine with stack := rest } below := by
  rw [HasValues, hstack, List.map_cons] at h
  cases values with
  | nil => exact absurd h (by simp)
  | cons value below =>
      obtain ⟨hcell, hrest⟩ := List.cons.inj h
      refine ⟨value, below, rfl, hcell, ?_⟩
      rw [HasValues, ← hrest]
      exact List.map_congr_left fun other _ => machine.resolve_popped rest other

theorem exists_cons_cons {right left : Cell} {rest : List Cell} (h : machine.HasValues values)
    (hstack : machine.stack = right :: left :: rest) :
    ∃ rhs lhs below, values = rhs :: lhs :: below ∧ machine.resolve right = .ok rhs ∧
      machine.resolve left = .ok lhs ∧ HasValues { machine with stack := rest } below := by
  obtain ⟨rhs, others, rfl, hright, hothers⟩ := h.exists_cons hstack
  obtain ⟨lhs, below, rfl, hleft, hbelow⟩ := hothers.exists_cons rfl
  rw [resolve_popped] at hleft
  exact ⟨rhs, lhs, below, rfl, hright, hleft, hbelow⟩

theorem cons {cell : Cell} {value : Binary64} (h : machine.HasValues values)
    (hcell : machine.resolve cell = .ok value) :
    HasValues { machine with stack := cell :: machine.stack } (value :: values) := by
  rw [HasValues, List.map_cons, List.map_cons, resolve_popped, hcell, ← h]
  exact congrArg _ (List.map_congr_left fun other _ => machine.resolve_popped _ other)

-- What is read at the end of a line is the value on top.
theorem top_eq (h : machine.HasValues values) : machine.top = .ok values.head? := by
  cases hstack : machine.stack with
  | nil =>
      have hlength := h.length_eq
      rw [hstack] at hlength
      rw [top, hstack, List.eq_nil_of_length_eq_zero hlength.symm]
      rfl
  | cons cell rest =>
      obtain ⟨value, below, rfl, hcell, -⟩ := h.exists_cons hstack
      simp only [top, hstack, hcell]
      rfl

end Machine.HasValues

-- The same failure or none, and the same stack once its names are read by the given bindings, which
-- are still those of the machine.
structure Reaction.Agrees (bindings : Bindings) (deferred : Reaction) (eager : Eager.Reaction) :
    Prop where
  kept : deferred.machine.bindings = bindings
  failure : deferred.failure = eager.failure
  values : deferred.machine.HasValues eager.stack

namespace Machine

variable {machine : Machine} {values : List Binary64}

variable [Power]

theorem operate_agrees (op : Operator) (h : machine.HasValues values) :
    (machine.operate op).Agrees machine.bindings
      (Eager.step machine.bindings values (.operator op)) := by
  have hcases := machine.operate_cases op
  generalize machine.operate op = reaction at hcases ⊢
  cases hcases with
  | short hshort =>
      have hlength := h.length_eq
      rw [hlength] at hshort ⊢
      match values, hshort with
      | [], _ => exact ⟨rfl, rfl, h⟩
      | [_], _ => exact ⟨rfl, rfl, h⟩
  | rightFails right left rest error hstack hright =>
      obtain ⟨rhs, lhs, below, -, hvalue, -⟩ := h.exists_cons_cons hstack
      exact absurd (hright.symm.trans hvalue) (by simp)
  | leftFails right left rest rhs error hstack hright hleft =>
      obtain ⟨rhs, lhs, below, -, -, hvalue, -⟩ := h.exists_cons_cons hstack
      exact absurd (hleft.symm.trans hvalue) (by simp)
  | noResult right left rest rhs lhs hstack hright hleft hresult =>
      obtain ⟨_, _, below, rfl, hrhs, hlhs, hbelow⟩ := h.exists_cons_cons hstack
      obtain rfl := Except.ok.inj (hright.symm.trans hrhs)
      obtain rfl := Except.ok.inj (hleft.symm.trans hlhs)
      simp only [Eager.step, hresult]
      exact ⟨rfl, rfl, hbelow⟩
  | done right left rest rhs lhs value hstack hright hleft hresult =>
      obtain ⟨_, _, below, rfl, hrhs, hlhs, hbelow⟩ := h.exists_cons_cons hstack
      obtain rfl := Except.ok.inj (hright.symm.trans hrhs)
      obtain rfl := Except.ok.inj (hleft.symm.trans hlhs)
      simp only [Eager.step, hresult]
      exact ⟨rfl, rfl, hbelow.cons rfl⟩

-- A name that is pushed has the value that the eager evaluator pushes in its place.
theorem step_agrees {token : Token} (h : machine.HasValues values) (hassign : token ≠ .assign)
    (hassigned : ∀ letter, token = .variable letter → (machine.bindings.get? letter).isSome) :
    (machine.step token).Agrees machine.bindings (Eager.step machine.bindings values token) := by
  cases token with
  | blank => exact ⟨rfl, rfl, h⟩
  | number numeral => exact ⟨rfl, rfl, h.cons rfl⟩
  | operator op => exact operate_agrees op h
  | assign => exact absurd rfl hassign
  | unknown text => exact ⟨rfl, rfl, h⟩
  | «variable» letter =>
      obtain ⟨value, hvalue⟩ := Option.isSome_iff_exists.mp (hassigned letter rfl)
      have hcell : machine.resolve (.reference letter.name) = .ok value := by
        rw [resolve, Bindings.lookup_name, hvalue]
      simp only [Eager.step, hvalue]
      exact ⟨rfl, rfl, h.cons hcell⟩

-- The bindings stay as they are, and so does the value of every name on the stack.
theorem run_agrees {tokens : List Token} (h : machine.HasValues values) (hassign : .assign ∉ tokens)
    (hassigned : ∀ letter, .variable letter ∈ tokens → (machine.bindings.get? letter).isSome) :
    (machine.run tokens).Agrees machine.bindings (Eager.run machine.bindings values tokens) := by
  induction tokens generalizing machine values with
  | nil => exact ⟨rfl, rfl, h⟩
  | cons token rest ih =>
      obtain ⟨htoken, hrest⟩ := not_or.mp (mt List.mem_cons.mpr hassign)
      have hstep := step_agrees h (Ne.symm htoken)
        (fun letter hletter => hassigned letter (by simp [hletter]))
      simp only [Eager.run]
      cases hfailure : (machine.step token).failure with
      | some error =>
          rw [run_cons_failed rest hfailure, ← hstep.failure, hfailure]
          exact hstep
      | none =>
          have hlater := ih hstep.values hrest
          rw [hstep.kept] at hlater
          obtain ⟨hkept, hfailed, hvalues⟩ :=
            hlater (fun letter hletter => hassigned letter (by simp [hletter]))
          rw [← hstep.failure, hfailure]
          refine ⟨?_, ?_, ?_⟩
          · rw [machine_run_cons rest hfailure, hkept]
          · rw [failure_run_cons rest hfailure, hfailed]
          · rw [machine_run_cons rest hfailure]
            exact hvalues

end Machine

-- Where nothing is assigned and every letter has a value, it makes no difference when the letters
-- are read: the result or the error is the same, and so are the cells that are left, also those left
-- by a failure.
theorem deferred_agrees_with_eager [Power] (machine : Machine) (line : String)
    (hassign : Token.assignMark ∉ Text.words line)
    (hassigned : ∀ letter, Machine.Mentions line letter →
      (machine.bindings.get? letter).isSome) :
    let deferred := machine.evaluate line
    let eager := Eager.run machine.bindings [] (Machine.tokens line)
    deferred.result = Eager.result eager ∧
      deferred.machine.stack.map deferred.machine.resolve = eager.stack.map .ok ∧
      deferred.machine.bindings = machine.bindings := by
  intro deferred eager
  have hempty : machine.reset.HasValues [] := rfl
  have hrun : Reaction.Agrees machine.bindings (machine.reset.run (Machine.tokens line)) eager :=
    Machine.run_agrees hempty (mt Machine.mem_words_of_assign_mem_tokens hassign)
      (fun letter hletter => hassigned letter (Machine.mentions_of_mem_tokens hletter))
  refine ⟨?_, hrun.values, hrun.kept⟩
  cases hfailure : eager.failure with
  | some error =>
      rw [Eager.result, hfailure]
      exact Machine.result_of_failure (hrun.failure.trans hfailure)
  | none =>
      rw [Eager.result, hfailure, ← hrun.values.top_eq]
      exact Machine.result_of_done (hrun.failure.trans hfailure)

-- The division fails and takes its two operands with it. The name C stays unread under the sum.
theorem deferred_agrees_with_eager_after_failure :
    let value := fun n : Int => Binary64.ofInt n
    let bindings := ((Bindings.empty.set ⟨0⟩ (value 1)).set ⟨1⟩ (value 2)).set ⟨2⟩ (value 5)
    let line := "C A B + A 0 /"
    let deferred := Machine.evaluate ⟨[.foreign "left over"], bindings⟩ line
    deferred.machine.stack = [.number (value 3), .reference "C"] ∧
      deferred.result = .error .divisionByZero ∧
      deferred.machine.stack.map deferred.machine.resolve = [.ok (value 3), .ok (value 5)] := by
  intro value bindings line deferred
  have hassigned : ∀ letter, Machine.Mentions line letter → (bindings.get? letter).isSome := by
    rintro ⟨index⟩
    revert index
    decide +kernel
  obtain ⟨hresult, hstack, -⟩ := deferred_agrees_with_eager ⟨[.foreign "left over"], bindings⟩ line
    (by decide +kernel) hassigned
  have hfailure : (Eager.run bindings [] (Machine.tokens line)).failure = some .divisionByZero := by
    decide +kernel
  have hvalues : (Eager.run bindings [] (Machine.tokens line)).stack = [value 3, value 5] := by
    decide +kernel
  rw [Eager.result, hfailure] at hresult
  rw [hvalues] at hstack
  exact ⟨by decide +kernel, hresult, hstack⟩

end PostfixCalc
