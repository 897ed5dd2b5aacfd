import PostfixCalc.Proofs.Machine.Frame

namespace PostfixCalc

-- The same machine with more cells below its own.
def Machine.onto (machine : Machine) (base : List Cell) : Machine :=
  { machine with stack := machine.stack ++ base }

def Reaction.onto (reaction : Reaction) (base : List Cell) : Reaction :=
  { reaction with machine := reaction.machine.onto base }

namespace Machine

variable {machine : Machine}

theorem push_onto (machine : Machine) (cell : Cell) (base : List Cell) :
    (machine.onto base).push cell = (machine.push cell).onto base := rfl

theorem store_onto (base : List Cell) (h : machine.store.failure = none) :
    (machine.onto base).store = machine.store.onto base := by
  have hcases := machine.store_cases
  generalize machine.store = reaction at hcases h
  cases hcases with
  | done source target rest letter value hstack htarget hsource =>
      obtain ⟨stack, bindings⟩ := machine
      obtain rfl : stack = source :: target :: rest := hstack
      have hsource' := (resolve_popped _ (source :: target :: (rest ++ base)) source).trans hsource
      simp only [onto, store, List.cons_append, htarget, hsource']
      rfl
  | _ => exact absurd h (by simp [fail])

theorem tokens_of_words {line : String} {first second third : List String}
    (h : Text.words line = first ++ second ++ third) :
    tokens line = first.map Token.read ++ second.map Token.read ++ third.map Token.read := by
  rw [tokens, h, List.map_append, List.map_append]

-- One stack, and one value or none for every letter. The letters may have been assigned in another
-- order.
structure Matches (first second : Machine) : Prop where
  stack : first.stack = second.stack
  bindings : ∀ letter, first.bindings.get? letter = second.bindings.get? letter

theorem Matches.alike {first second : Machine} (h : first.Matches second) :
    first.Alike (fun _ => True) second where
  stack := h.stack
  names := fun _ _ _ _ => trivial
  bindings := fun letter _ => h.bindings letter

theorem Alike.matches {first second : Machine} (h : first.Alike (fun _ => True) second) :
    first.Matches second where
  stack := h.stack
  bindings letter := h.bindings letter trivial

theorem Matches.onto {first second : Machine} (h : first.Matches second) (base : List Cell) :
    (first.onto base).Matches (second.onto base) where
  stack := congrArg (· ++ base) h.stack
  bindings := h.bindings

theorem Matches.top_eq {first second : Machine} (h : first.Matches second) :
    first.top = second.top := h.alike.top_eq

variable [Power]

theorem operate_onto {op : Operator} (base : List Cell)
    (h : (machine.operate op).failure = none) :
    (machine.onto base).operate op = (machine.operate op).onto base := by
  have hcases := machine.operate_cases op
  generalize machine.operate op = reaction at hcases h
  cases hcases with
  | done right left rest rhs lhs value hstack hright hleft hresult =>
      obtain ⟨stack, bindings⟩ := machine
      obtain rfl : stack = right :: left :: rest := hstack
      have hright' := (resolve_popped _ (right :: left :: (rest ++ base)) right).trans hright
      have hleft' := (resolve_popped _ (right :: left :: (rest ++ base)) left).trans hleft
      simp only [onto, operate, List.cons_append, hright', hleft', hresult]
      rfl
  | _ => exact absurd h (by simp [fail])

-- A token that goes through does not see what lies below the cells that it needs.
theorem step_onto {token : Token} (base : List Cell)
    (h : (machine.step token).failure = none) :
    (machine.onto base).step token = (machine.step token).onto base := by
  cases token with
  | blank => rfl
  | number numeral => exact machine.push_onto _ base
  | operator op => exact operate_onto base h
  | assign => exact store_onto base h
  | «variable» letter => exact machine.push_onto _ base
  | unknown text => exact absurd h (by simp [step, fail])

theorem run_onto {tokens : List Token} (base : List Cell)
    (h : (machine.run tokens).failure = none) :
    (machine.onto base).run tokens = (machine.run tokens).onto base := by
  induction tokens generalizing machine with
  | nil => rfl
  | cons token rest ih =>
      cases hfailure : (machine.step token).failure with
      | some error =>
          rw [run_cons_failed rest hfailure, hfailure] at h
          exact absurd h (by simp)
      | none =>
          have hstep := step_onto base hfailure
          rw [failure_run_cons rest hfailure] at h
          have hrest := ih h
          rw [run_cons, run_cons, hstep, Reaction.andThen, Reaction.andThen]
          simp only [Reaction.onto, hfailure] at hrest ⊢
          rw [hrest]

-- What comes after other tokens runs as if they had left nothing, on the cells that they have left.
theorem run_append_onto {first second : List Token} (hfirst : (machine.run first).failure = none)
    (hsecond : ((machine.run first).machine.reset.run second).failure = none) :
    (machine.run (first ++ second)).failure = none ∧
      (machine.run (first ++ second)).machine =
        ((machine.run first).machine.reset.run second).machine.onto
          (machine.run first).machine.stack := by
  have hsplit : (machine.run first).machine =
      (machine.run first).machine.reset.onto (machine.run first).machine.stack := rfl
  have hrun := run_onto (machine.run first).machine.stack hsecond
  rw [← hsplit] at hrun
  rw [run_append, Reaction.failure_andThen _ hfirst, Reaction.machine_andThen _ hfirst, hrun]
  exact ⟨hsecond, rfl⟩

-- The third part of a line runs on what the second has left, put on top of what the first has left.
theorem evaluate_parts {line : String} {first second third : List String}
    (hline : Text.words line = first ++ second ++ third)
    (hfirst : (machine.reset.run (first.map Token.read)).failure = none)
    (hsecond : ((machine.reset.run (first.map Token.read)).machine.reset.run
      (second.map Token.read)).failure = none) :
    let start := (machine.reset.run (first.map Token.read)).machine
    let between := (start.reset.run (second.map Token.read)).machine.onto start.stack
    (machine.reset.run (tokens line)).failure = (between.run (third.map Token.read)).failure ∧
      (machine.evaluate line).machine = (between.run (third.map Token.read)).machine := by
  intro start between
  obtain ⟨hdone, hmachine⟩ := run_append_onto hfirst hsecond
  change _ ∧ (machine.reset.run (tokens line)).machine = _
  rw [tokens_of_words hline, run_append, Reaction.failure_andThen _ hdone,
    Reaction.machine_andThen _ hdone, hmachine]
  exact ⟨rfl, rfl⟩

theorem Matches.run {first second : Machine} (h : first.Matches second) (tokens : List Token) :
    (first.run tokens).failure = (second.run tokens).failure ∧
      (first.run tokens).machine.Matches (second.run tokens).machine := by
  have hrun : (first.run tokens).Alike (fun _ => True) (second.run tokens) :=
    run_alike h.alike fun _ _ => trivial
  exact ⟨hrun.failure, hrun.machine.matches⟩

end Machine

-- Part of a line can be replaced by other words that do the same from an empty stack: the line ends in
-- the same way. The two parts are compared with the values that the words before them leave.
theorem parts_interchange [Power] (machine : Machine) (before first second after : List String)
    (one two : String) (hone : Text.words one = before ++ first ++ after)
    (htwo : Text.words two = before ++ second ++ after)
    (hbefore : (machine.reset.run (before.map Token.read)).failure = none) :
    let start := (machine.reset.run (before.map Token.read)).machine.reset
    let left := start.run (first.map Token.read)
    let right := start.run (second.map Token.read)
    left.failure = none → right.failure = none → left.machine.Matches right.machine →
      (machine.evaluate one).result = (machine.evaluate two).result ∧
      (machine.evaluate one).machine.Matches (machine.evaluate two).machine ∧
      (left.machine = right.machine →
        (machine.evaluate one).machine = (machine.evaluate two).machine) := by
  intro start left right hleft hright hmatches
  let base := (machine.reset.run (before.map Token.read)).machine.stack
  obtain ⟨hfailureOne, hmachineOne⟩ := Machine.evaluate_parts hone hbefore hleft
  obtain ⟨hfailureTwo, hmachineTwo⟩ := Machine.evaluate_parts htwo hbefore hright
  obtain ⟨hfailure, hmachine⟩ := (hmatches.onto base).run (after.map Token.read)
  have hend : (machine.evaluate one).machine.Matches (machine.evaluate two).machine := by
    rw [hmachineOne, hmachineTwo]
    exact hmachine
  refine ⟨?_, hend, ?_⟩
  · apply Machine.result_congr_of_top
    · rw [hfailureOne, hfailureTwo]
      exact hfailure
    · exact hend.top_eq
  · intro hsame
    rw [hmachineOne, hmachineTwo]
    change ((left.machine.onto base).run _).machine = ((right.machine.onto base).run _).machine
    rw [hsame]

-- The parts assign to the same letters in another order, and one of them reads a letter that was
-- assigned before it.
theorem parts_interchange_reordered :
    let before := ["2", "A", "3", "="]
    let first := ["B", "1", "=", "C", "2", "=", "7"]
    let second := ["C", "2", "=", "B", "1", "=", "A", "4", "+"]
    let one := "2 A 3 =  B 1 = C 2 = 7  * B +"
    let two := "2 A 3 =  C 2 = B 1 = A 4 +  * B +"
    let start := (Machine.initial.run (before.map Token.read)).machine.reset
    (start.run (first.map Token.read)).machine.Matches
        (start.run (second.map Token.read)).machine ∧
      (start.run (first.map Token.read)).machine.bindings.names = ["A", "B", "C"] ∧
      (Machine.initial.evaluate two).result = .ok (some (Binary64.ofInt 15)) ∧
      (Machine.initial.evaluate one).result = (Machine.initial.evaluate two).result := by
  intro before first second one two start
  have hmatches : (start.run (first.map Token.read)).machine.Matches
      (start.run (second.map Token.read)).machine := by
    refine ⟨by decide +kernel, ?_⟩
    rintro ⟨index⟩
    revert index
    decide +kernel
  have hends := parts_interchange .initial before first second ["*", "B", "+"] one two
    (by decide +kernel) (by decide +kernel) (by decide +kernel) (by decide +kernel)
    (by decide +kernel) hmatches
  exact ⟨hmatches, by decide +kernel, by decide +kernel, hends.1⟩

end PostfixCalc
