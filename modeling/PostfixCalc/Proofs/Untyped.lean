import Mathlib.Data.Fintype.Card
import PostfixCalc.Untyped
import PostfixCalc.Proofs.Bindings
import PostfixCalc.Proofs.Machine.Reachable

namespace PostfixCalc

theorem Letter.name_injective : Function.Injective Letter.name := by
  intro first second h
  have hletters : ofName? first.name = ofName? second.name := congrArg ofName? h
  rwa [ofName?_name, ofName?_name, Option.some.injEq] at hletters

namespace Untyped

-- One capital letter of the ASCII alphabet and nothing else.
def IsLetterName (name : String) : Prop := ∃ c : Char, 'A' ≤ c ∧ c ≤ 'Z' ∧ name.toList = [c]

theorem isLetterName_name (letter : Letter) : IsLetterName letter.name := by
  refine ⟨letter.toChar, ?_, ?_, letter.toList_name⟩
  all_goals
    obtain ⟨index⟩ := letter
    revert index
    decide

theorem ofName?_eq_none {name : String} (h : ¬IsLetterName name) : Letter.ofName? name = none := by
  cases hletter : Letter.ofName? name with
  | none => rfl
  | some letter =>
      rw [Letter.ofName?_eq_some_iff.mp hletter] at h
      exact absurd (isLetterName_name letter) h

namespace Table

theorem lookup_cons_of_ne {name key : String} (value : Binary64) (table : Table)
    (h : name ≠ key) : List.lookup name ((key, value) :: table) = table.lookup name := by
  simp only [List.lookup_cons, beq_eq_false_iff_ne.mpr h]

theorem lookup_put_self (name : String) (value : Binary64) (table : Table) :
    (put name value table).lookup name = some value := by
  induction table with
  | nil => exact List.lookup_cons_self
  | cons entry rest ih =>
      obtain ⟨key, old⟩ := entry
      by_cases hkey : key = name
      · rw [put, if_pos hkey, hkey, List.lookup_cons_self]
      · rw [put, if_neg hkey, lookup_cons_of_ne old _ (Ne.symm hkey), ih]

theorem lookup_put_of_ne {name other : String} (value : Binary64) (table : Table)
    (h : other ≠ name) : (put name value table).lookup other = table.lookup other := by
  induction table with
  | nil => exact lookup_cons_of_ne value [] h
  | cons entry rest ih =>
      obtain ⟨key, old⟩ := entry
      by_cases hkey : key = name
      · subst hkey
        rw [put, if_pos rfl, lookup_cons_of_ne value rest h, lookup_cons_of_ne old rest h]
      · rw [put, if_neg hkey, List.lookup_cons, List.lookup_cons, ih]

theorem names_put (name : String) (value : Binary64) (table : Table) :
    (put name value table).map Prod.fst =
      if name ∈ table.map Prod.fst then table.map Prod.fst else table.map Prod.fst ++ [name] := by
  induction table with
  | nil => rfl
  | cons entry rest ih =>
      obtain ⟨key, old⟩ := entry
      by_cases hkey : key = name
      · simp [put, hkey]
      · rw [put, if_neg hkey, List.map_cons, ih]
        by_cases hrest : name ∈ rest.map Prod.fst
        · simp [hrest]
        · simp [hrest, Ne.symm hkey]

theorem rebinds_put (name : String) (value : Binary64) (table : Table) :
    Rebinds name value table (put name value table) :=
  ⟨lookup_put_self name value table, fun _ h => lookup_put_of_ne value table h⟩

end Table

theorem snapshot_set (bindings : Bindings) (letter : Letter) (value : Binary64) :
    (bindings.set letter value).snapshot = Table.put letter.name value bindings.snapshot := by
  simp only [Bindings.snapshot, Bindings.set]
  generalize bindings.entries = entries
  induction entries with
  | nil => rfl
  | cons entry rest ih =>
      obtain ⟨key, old⟩ := entry
      by_cases hkey : key = letter
      · simp [Bindings.put, Table.put, hkey]
      · -- no two letters have one name, so that the table passes over the entry too
        have hname : key.name ≠ letter.name := fun heq => hkey (Letter.name_injective heq)
        simpa [Bindings.put, Table.put, hkey, hname] using ih

theorem lookup_snapshot (bindings : Bindings) (name : String) :
    bindings.snapshot.lookup name = bindings.find? name := by
  simp only [Bindings.snapshot, Bindings.find?]
  cases hletter : Letter.ofName? name with
  | none =>
      rw [Option.bind_none, List.lookup_eq_none_iff]
      intro entry hentry
      obtain ⟨⟨key, value⟩, -, rfl⟩ := List.mem_map.mp hentry
      have hne : name ≠ key.name := by
        rintro rfl
        exact absurd hletter (by simp)
      simpa using hne
  | some letter =>
      obtain rfl := Letter.ofName?_eq_some_iff.mp hletter
      rw [Option.bind_some]
      unfold Bindings.get?
      generalize bindings.entries = entries
      induction entries with
      | nil => rfl
      | cons entry rest ih =>
          obtain ⟨key, value⟩ := entry
          by_cases hkey : key = letter
          · simp [hkey]
          · have hname : letter.name ≠ key.name := fun heq => hkey (Letter.name_injective heq.symm)
            rw [List.map_cons, Table.lookup_cons_of_ne value _ hname, ih]
            simp [hkey]

namespace State

-- The state that holds what a machine holds.
def ofMachine (machine : Machine) : State := ⟨machine.stack, machine.bindings.snapshot⟩

end State

def Outcome.ofReaction (reaction : Reaction) : Outcome :=
  ⟨.ofMachine reaction.machine, reaction.failure.map .evaluation⟩

namespace State

theorem resolve_snapshot (stack : List Cell) (bindings : Bindings) (cell : Cell) :
    resolve ⟨stack, bindings.snapshot⟩ cell = Machine.resolve ⟨stack, bindings⟩ cell := by
  cases cell with
  | number value => rfl
  | foreign text => rfl
  | reference name =>
      cases hfind : bindings.find? name with
      | none => simp only [resolve, lookup_snapshot, Machine.resolve, Bindings.lookup, hfind]
      | some value => simp only [resolve, lookup_snapshot, Machine.resolve, Bindings.lookup, hfind]

theorem assign_snapshot (bindings : Bindings) (name : Subject) (value : Quantity) :
    Table.assign bindings.snapshot name value = (bindings.assign name value).map Bindings.snapshot := by
  cases name with
  | text text =>
      simp only [Table.assign, Bindings.assign, Bindings.target?, Token.isVariable]
      rcases Option.eq_none_or_eq_some (Letter.ofName? text) with hletter | ⟨letter, hletter⟩
      · simp only [hletter, Option.isSome_none, Bool.false_eq_true, ite_false]
        rfl
      · obtain rfl := Letter.ofName?_eq_some_iff.mp hletter
        simp only [hletter, Option.isSome_some, ite_true]
        cases value.toBinary64 with
        | error error => rfl
        | ok number => exact congrArg Except.ok (snapshot_set bindings letter number).symm
  | _ => rfl

-- The table does not object to what the machine lets pass.
theorem assign_name (bindings : Bindings) (letter : Letter) (value : Binary64) :
    Table.assign bindings.snapshot (.text letter.name) (.binary value) =
      .ok (bindings.set letter value).snapshot := by
  rw [assign_snapshot, bindings.assign_letter letter rfl]
  rfl

theorem store_ofMachine (machine : Machine) :
    (ofMachine machine).store = .ofReaction machine.store := by
  obtain ⟨stack, bindings⟩ := machine
  match stack with
  | [] => rfl
  | [cell] => rfl
  | source :: .number value :: rest => rfl
  | source :: .foreign text :: rest => rfl
  | source :: .reference name :: rest =>
      simp only [store, ofMachine, Machine.store, Machine.target?, Token.isVariable, resolve_snapshot]
      cases hletter : Letter.ofName? name with
      | none => rfl
      | some letter =>
          obtain rfl := Letter.ofName?_eq_some_iff.mp hletter
          simp only [Option.isSome_some, ite_true]
          cases Machine.resolve ⟨source :: .reference letter.name :: rest, bindings⟩ source with
          | error error => rfl
          | ok value =>
              simp only [assign_name]
              rfl

variable [Power]

theorem operate_ofMachine (machine : Machine) (op : Operator) :
    (ofMachine machine).operate op = .ofReaction (machine.operate op) := by
  obtain ⟨stack, bindings⟩ := machine
  match stack with
  | [] => rfl
  | [cell] => rfl
  | right :: left :: rest =>
      simp only [operate, ofMachine, Machine.operate, resolve_snapshot]
      cases Machine.resolve ⟨right :: left :: rest, bindings⟩ right with
      | error error => rfl
      | ok rhs =>
          cases Machine.resolve ⟨right :: left :: rest, bindings⟩ left with
          | error error => rfl
          | ok lhs =>
              simp only
              cases op.compute? lhs rhs <;> rfl

theorem step_ofMachine (machine : Machine) (token : Token) :
    (ofMachine machine).step token = .ofReaction (machine.step token) := by
  cases token with
  | blank => rfl
  | number numeral => rfl
  | operator op => exact operate_ofMachine machine op
  | assign => exact store_ofMachine machine
  | «variable» letter => rfl
  | unknown text => rfl

theorem run_ofMachine (machine : Machine) (tokens : List Token) :
    (ofMachine machine).run tokens = .ofReaction (machine.run tokens) := by
  induction tokens generalizing machine with
  | nil => rfl
  | cons token rest ih =>
      rw [run, step_ofMachine]
      cases hfailure : (machine.step token).failure with
      | some error =>
          rw [Machine.run_cons_failed rest hfailure]
          simp only [Outcome.ofReaction, hfailure, Option.map_some]
      | none =>
          have hrest := ih (machine.step token).machine
          simp only [Outcome.ofReaction, hfailure, Option.map_none] at hrest ⊢
          rw [hrest, Machine.failure_run_cons rest hfailure, Machine.machine_run_cons rest hfailure]

theorem evaluate_ofMachine (machine : Machine) (line : String) :
    (ofMachine machine).evaluate line =
      ⟨ofMachine (machine.evaluate line).machine,
        (failureOf (machine.evaluate line).result).map .evaluation⟩ := by
  have hrun := run_ofMachine machine.reset (Machine.tokens line)
  change (ofMachine machine).reset.run (Machine.tokens line) = _ at hrun
  simp only [evaluate, hrun, Outcome.ofReaction]
  cases hfailure : (machine.reset.run (Machine.tokens line)).failure with
  | some error =>
      rw [Machine.result_of_failure hfailure]
      rfl
  | none =>
      rw [Machine.result_of_done hfailure, Machine.top]
      change _ = Outcome.mk (ofMachine (machine.reset.run (Machine.tokens line)).machine) _
      generalize (machine.reset.run (Machine.tokens line)).machine = final
      obtain ⟨stack, bindings⟩ := final
      match stack with
      | [] => rfl
      | cell :: rest =>
          simp only [ofMachine, Option.map_none, resolve_snapshot]
          cases Machine.resolve ⟨cell :: rest, bindings⟩ cell <;> rfl

theorem answer_ofMachine (machine : Machine) (line : String) :
    (ofMachine machine).answer line = ⟨ofMachine (machine.answer line).machine, none⟩ := by
  simp only [answer, evaluate_ofMachine, Machine.answer]
  cases (machine.evaluate line).result with
  | error error => rfl
  | ok value => cases value <;> rfl

-- Every action does to the state what the step does to the machine.
theorem perform_ofMachine (machine : Machine) (action : Action) :
    (ofMachine machine).perform action =
      ⟨ofMachine (machine.perform action.step).1, failureOf (machine.perform action.step).2⟩ := by
  cases action with
  | evaluate line =>
      simp only [perform, Action.step, Machine.perform, evaluate_ofMachine]
      cases (machine.evaluate line).result with
      | error error => rfl
      | ok value => cases value <;> rfl
  | answer line => exact answer_ofMachine machine line
  | token text =>
      simp only [perform, Action.step, Machine.perform, step_ofMachine, Outcome.ofReaction]
      cases (machine.step (Token.read text)).failure <;> rfl
  | push cell => rfl
  | reset => rfl
  | clear => rfl
  | assign name value =>
      simp only [perform, Action.step, Machine.perform, ofMachine, assign_snapshot]
      cases machine.bindings.assign name value <;> rfl

theorem after_ofMachine (machine : Machine) (actions : List Action) :
    (ofMachine machine).after actions =
      ofMachine (machine.performAll (actions.map Action.step)) := by
  induction actions generalizing machine with
  | nil => rfl
  | cons action rest ih =>
      have haction := congrArg Outcome.state (perform_ofMachine machine action)
      change ((ofMachine machine).perform action).state.after rest = _
      rw [haction, ih]
      rfl

end State

-- The names in a table are letters, and each stands there once.
structure Table.IsLettered (table : Table) : Prop where
  names : ∀ name ∈ table.map Prod.fst, IsLetterName name
  nodup : (table.map Prod.fst).Nodup
  length_le : table.length ≤ 26

theorem isLettered_snapshot (bindings : Bindings) : Table.IsLettered bindings.snapshot := by
  have hnames : bindings.snapshot.map Prod.fst = (bindings.entries.map Prod.fst).map Letter.name := by
    simp [Bindings.snapshot, Function.comp_def]
  have hnodup := bindings.nodup
  refine ⟨?_, ?_, ?_⟩
  · intro name hname
    rw [hnames] at hname
    obtain ⟨letter, -, rfl⟩ := List.mem_map.mp hname
    exact isLetterName_name letter
  · rw [hnames]
    exact hnodup.map Letter.name_injective
  · have hindex : Function.Injective Letter.index := fun ⟨_⟩ ⟨_⟩ h => congrArg Letter.mk h
    have hle := (hnodup.map hindex).length_le_card
    simpa [Bindings.snapshot] using hle

namespace State

theorem rebinds_of_assign {table changed : Table} {name : Subject} {value : Quantity}
    (h : table.assign name value = .ok changed) :
    ∃ text number, name = .text text ∧ value.toBinary64 = .ok number ∧
      Table.Rebinds text number table changed := by
  cases name with
  | text text =>
      simp only [Table.assign] at h
      split at h
      · cases hvalue : value.toBinary64 with
        | error error => exact absurd h (by simp [hvalue, Except.map])
        | ok number =>
            rw [hvalue] at h
            obtain rfl := Except.ok.inj h
            exact ⟨text, number, rfl, rfl, Table.rebinds_put text number table⟩
      · exact absurd h (by simp)
  | _ => exact absurd h (by simp [Table.assign])

-- A `=` that goes through gives its target the value of its source; one that fails writes nothing.
theorem store_cases (state : State) :
    (state.store.failure ≠ none ∧ state.store.state.table = state.table) ∨
    (state.store.failure = none ∧ ∃ source name below value,
      state.stack = source :: .reference name :: below ∧ state.resolve source = .ok value ∧
      Table.Rebinds name value state.table state.store.state.table) := by
  unfold store
  split
  · rename_i source target rest hstack
    split
    · rename_i name
      split
      · split
        · exact .inl ⟨by simp [fail], rfl⟩
        · rename_i value hvalue
          split
          · exact .inl ⟨by simp, rfl⟩
          · rename_i changed hassign
            obtain ⟨text, number, htext, hnumber, hrebinds⟩ := rebinds_of_assign hassign
            obtain rfl := Subject.text.inj htext
            obtain rfl := Except.ok.inj hnumber
            exact .inr ⟨rfl, source, name, rest, value, hstack, hvalue, hrebinds⟩
      · exact .inl ⟨by simp [fail], rfl⟩
    · exact .inl ⟨by simp [fail], rfl⟩
  · exact .inl ⟨by simp [fail], rfl⟩

variable [Power]

theorem table_operate (state : State) (op : Operator) :
    (state.operate op).state.table = state.table := by
  unfold operate
  split
  · split
    · rfl
    · dsimp only
      split
      · rfl
      · split <;> rfl
  · rfl

theorem table_step {state : State} {token : Token}
    (h : token ≠ .assign ∨ (state.step token).failure ≠ none) :
    (state.step token).state.table = state.table := by
  cases token with
  | operator op => exact table_operate state op
  | assign =>
      rcases state.store_cases with ⟨-, htable⟩ | ⟨hdone, -⟩
      · exact htable
      · exact absurd hdone (h.resolve_left (by simp))
  | _ => rfl

theorem edits_step (state : State) (token : Token) (rest : List (State × Token)) (later : Table)
    (hrest : Edits (state.step token).state.table rest later) :
    Edits state.table ((state, token) :: rest) later := by
  by_cases hother : token ≠ .assign ∨ (state.step token).failure ≠ none
  · rw [table_step hother] at hrest
    exact .kept state token rest later hother hrest
  · simp only [ne_eq, not_or, not_not] at hother
    obtain ⟨rfl, hdone⟩ := hother
    rcases state.store_cases with ⟨hfailed, -⟩ | ⟨-, source, name, below, value, hstack, hvalue, hchanged⟩
    · exact absurd hdone hfailed
    · exact .assigned state rest _ later source name below value hdone hstack hvalue hchanged hrest

theorem edits_run (state : State) (tokens : List Token) :
    Edits state.table (state.trace tokens) (state.run tokens).state.table := by
  induction tokens generalizing state with
  | nil => exact .nil state.table
  | cons token rest ih =>
      rw [trace, run]
      apply edits_step
      cases hfailure : (state.step token).failure with
      | some error => exact .nil _
      | none => exact ih (state.step token).state

theorem state_evaluate (state : State) (line : String) :
    (state.evaluate line).state = (state.reset.run (Machine.tokens line)).state := by
  unfold evaluate
  dsimp only
  split <;> rfl

theorem table_answer (state : State) (line : String) :
    (state.answer line).state.table = (state.evaluate line).state.table := by
  unfold answer
  dsimp only
  split <;> rfl

end State

-- All that an action does to the table.
def State.Accounts [Power] (state : State) (action : Action) : Prop :=
  let after := state.perform action
  match action with
  | .assign name value =>
    (after.failure = none → ∃ text number, name = .text text ∧ value.toBinary64 = .ok number ∧
      Table.Rebinds text number state.table after.state.table) ∧
    (after.failure ≠ none → after.state.table = state.table)
  | .clear => after.state.table = []
  | _ => Edits state.table (state.traceOf action) after.state.table

theorem State.accounts [Power] (state : State) (action : Action) : state.Accounts action := by
  cases action with
  | evaluate line =>
      have hrun := edits_run state.reset (Machine.tokens line)
      rw [← state_evaluate] at hrun
      exact hrun
  | answer line =>
      have hrun := edits_run state.reset (Machine.tokens line)
      rw [← state_evaluate, ← table_answer] at hrun
      exact hrun
  | token text => exact edits_step state (Token.read text) [] _ (.nil _)
  | push cell => exact .nil state.table
  | reset => exact .nil state.table
  | clear => exact rfl
  | assign name value =>
      simp only [Accounts, perform]
      cases hassign : state.table.assign name value with
      | ok changed =>
          simp only [ne_eq, not_true_eq_false, false_implies, and_true, true_implies]
          exact rebinds_of_assign hassign
      | error error => simp

theorem Edits.eq_of_forall_not [Power] {first later : Table} {trace : List (State × Token)}
    (h : Edits first trace later)
    (hnone : ∀ met ∈ trace, met.2 = .assign → (met.1.step .assign).failure ≠ none) :
    later = first := by
  induction h with
  | nil => rfl
  | kept state token rest later hother hrest ih =>
      exact ih fun met hmet => hnone met (List.mem_cons_of_mem _ hmet)
  | assigned state rest changed later source name below value hdone hstack hvalue hchanged hrest =>
      exact absurd hdone (hnone (state, .assign) (by simp) rfl)

theorem State.table_changed [Power] {state : State} {action : Action}
    (h : (state.perform action).state.table ≠ state.table) :
    (∃ name value, action = .assign name value ∧ (state.perform action).failure = none) ∨
      action = .clear ∨
      ∃ met ∈ state.traceOf action, met.2 = .assign ∧ (met.1.step .assign).failure = none := by
  have haccounts := state.accounts action
  have hedits : Edits state.table (state.traceOf action) (state.perform action).state.table →
      ∃ met ∈ state.traceOf action, met.2 = .assign ∧ (met.1.step .assign).failure = none := by
    intro hedits
    -- without a `=` that goes through nothing is written
    by_contra hnone
    exact h (hedits.eq_of_forall_not fun met hmet hassign hdone =>
      hnone ⟨met, hmet, hassign, hdone⟩)
  cases action with
  | assign name value =>
      refine .inl ⟨name, value, rfl, ?_⟩
      by_contra hfailure
      exact h (haccounts.2 hfailure)
  | clear => exact .inr (.inl rfl)
  | _ => exact .inr (.inr (hedits haccounts))

-- Whatever is put on the stack and whatever is asked for, no names but letters get into the table,
-- though nothing but the checks on the way into it sees to that. It changes when a name is assigned
-- to, when it is cleared and when a `=` goes through, and not otherwise.
theorem table_stays_lettered [Power] (actions : List Action) :
    let state := State.initial.after actions
    let machine := Machine.initial.performAll (actions.map Action.step)
    state = .ofMachine machine ∧
    state.table.IsLettered ∧
    (∀ name, ¬IsLetterName name →
      state.resolve (.reference name) = .error (.unassignedVariable name)) ∧
    ∀ action,
      state.perform action = ⟨.ofMachine (machine.perform action.step).1,
        failureOf (machine.perform action.step).2⟩ ∧
      state.Accounts action ∧
      ((state.perform action).state.table ≠ state.table →
        (∃ name value, action = .assign name value ∧ (state.perform action).failure = none) ∨
        action = .clear ∨
        ∃ met ∈ state.traceOf action, met.2 = .assign ∧ (met.1.step .assign).failure = none) := by
  intro state machine
  have hstate : state = .ofMachine machine := State.after_ofMachine .initial actions
  refine ⟨hstate, ?_, ?_, fun action => ⟨?_, state.accounts action, State.table_changed⟩⟩
  · rw [hstate]
    exact isLettered_snapshot machine.bindings
  · intro name hname
    rw [hstate, State.ofMachine, State.resolve_snapshot]
    exact machine.bindings.lookup_of_ofName?_eq_none (ofName?_eq_none hname)
  · rw [hstate]
    exact State.perform_ofMachine machine action

-- Names of two letters, foreign values and unassigned letters on the stack, and names that are none:
-- all of these fail, and the letter that is assigned to after them is the only one in the table.
theorem table_stays_lettered_hostile :
    let actions : List Action :=
      [.push (.reference "AB"), .push (.number (Binary64.ofInt 1)), .token "=",
        .push (.reference "A"), .push (.foreign "x"), .token "=", .evaluate "A B =",
        .assign (.text "AA") (.binary .nan), .assign .absent (.integer 1),
        .assign (.text "A") (.foreign "no number"), .push (.reference "A"),
        .answer "C 2 = C D ="]
    let state := State.initial.after actions
    state.table = [("C", Binary64.ofInt 2)] ∧ ¬IsLetterName "AB" ∧
      state.resolve (.reference "AB") = .error (.unassignedVariable "AB") ∧
      (state.perform (.evaluate "D C =")).state.table ≠ state.table ∧
      ∃ met ∈ state.traceOf (.evaluate "D C ="),
        met.2 = .assign ∧ (met.1.step .assign).failure = none := by
  intro actions state
  have hname : ¬IsLetterName "AB" := by
    rintro ⟨c, -, -, hc⟩
    exact absurd hc (by simp)
  have hchanged : (state.perform (.evaluate "D C =")).state.table ≠ state.table := by
    decide +kernel
  have hlettered := table_stays_lettered actions
  have haction := hlettered.2.2.2 (.evaluate "D C =")
  refine ⟨by decide +kernel, hname, hlettered.2.2.1 "AB" hname, hchanged, ?_⟩
  rcases haction.2.2 hchanged with ⟨name, value, hassign, -⟩ | hclear | hmet
  · exact absurd hassign (by simp)
  · exact absurd hclear (by simp)
  · exact hmet

end Untyped

end PostfixCalc
