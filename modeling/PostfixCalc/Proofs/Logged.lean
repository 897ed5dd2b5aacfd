import PostfixCalc.Logged
import PostfixCalc.Proofs.Console.Dialogue
import PostfixCalc.Proofs.Unguarded

namespace PostfixCalc

namespace CommandLine

theorem length_front {values : List (Option String)} (h : none ∉ values) :
    (front values).length = values.length := by
  induction values with
  | nil => rfl
  | cons value rest ih =>
      cases value with
      | none => exact absurd List.mem_cons_self h
      | some text =>
          rw [front, List.length_cons, ih (List.not_mem_of_not_mem_cons h), List.length_cons]

end CommandLine

namespace Logged

open Unguarded (outcome)

-- An action comes to a value and leaves a machine behind. It writes these events, save for the
-- records that the level hides.
def Does {α : Type} (level : Level) (action : Action α) (machine : Machine) (value : α)
    (next : Machine) (events : List Event) : Prop :=
  ∀ written, action.run ⟨machine, written⟩ =
    (value, ⟨next, written ++ events.filter (·.visibleAt level)⟩)

variable {level : Level} {ε α β : Type} {machine between after : Machine}
  {first later : List Event}

theorem does_pure (value : α) : Does level (pure value) machine value machine [] := by
  intro written
  rw [List.filter_nil, List.append_nil]
  rfl

theorem Does.bind {action : Action α} {next : α → Action β} {value : α} {result : β}
    (hfirst : Does level action machine value between first)
    (hnext : Does level (next value) between result after later) :
    Does level (action >>= next) machine result after (first ++ later) := by
  intro written
  rw [StateT.run_bind, hfirst written, List.filter_append, ← List.append_assoc]
  exact hnext _

-- Most steps write nothing.
theorem Does.silent {action : Action α} {next : α → Action β} {value : α} {result : β}
    (hfirst : Does level action machine value between [])
    (hnext : Does level (next value) between result after later) :
    Does level (action >>= next) machine result after later :=
  hfirst.bind hnext

theorem Does.last {action : Action α} {next : α → Action β} {value : α} {result : β}
    (hfirst : Does level action machine value between first)
    (hnext : Does level (next value) between result after []) :
    Does level (action >>= next) machine result after first := by
  have hboth := hfirst.bind hnext
  rwa [List.append_nil] at hboth

theorem Does.attempt {attempt : Attempt ε α} {next : α → Attempt ε β} {value : α}
    {result : Except ε β} (hfirst : Does level attempt.run machine (.ok value) between first)
    (hnext : Does level (next value).run between result after later) :
    Does level (attempt >>= next).run machine result after (first ++ later) := by
  rw [ExceptT.run_bind]
  exact hfirst.bind hnext

theorem Does.attempt_last {attempt : Attempt ε α} {next : α → Attempt ε β} {value : α}
    {result : Except ε β} (hfirst : Does level attempt.run machine (.ok value) between first)
    (hnext : Does level (next value).run between result after []) :
    Does level (attempt >>= next).run machine result after first := by
  have hboth := hfirst.attempt hnext
  rwa [List.append_nil] at hboth

theorem Does.attempt_failed {attempt : Attempt ε α} (next : α → Attempt ε β) {error : ε}
    (hfirst : Does level attempt.run machine (.error error) between first) :
    Does level (attempt >>= next).run machine (.error error) between first := by
  rw [ExceptT.run_bind]
  exact hfirst.last (does_pure _)

theorem Does.uncaught {attempt : Attempt ε α} (handler : ε → Attempt ε α) {value : α}
    (hfirst : Does level attempt.run machine (.ok value) between first) :
    Does level (tryCatch attempt handler).run machine (.ok value) between first := by
  rw [ExceptT.run_tryCatch]
  exact hfirst.last (does_pure _)

theorem Does.caught {attempt : Attempt ε α} {handler : ε → Attempt ε α} {error : ε}
    {result : Except ε α} (hfirst : Does level attempt.run machine (.error error) between first)
    (hcaught : Does level (handler error).run between result after later) :
    Does level (tryCatch attempt handler).run machine result after (first ++ later) := by
  rw [ExceptT.run_tryCatch]
  exact hfirst.bind hcaught

theorem Does.lift {action : Action α} {value : α} (h : Does level action machine value after first) :
    Does level (liftM action : Attempt ε α).run machine (.ok value) after first := by
  intro written
  change (Except.ok <$> action).run ⟨machine, written⟩ = _
  rw [StateT.run_map, h written]
  rfl

theorem does_return (value : α) :
    Does level (pure value : Attempt ε α).run machine (.ok value) machine [] :=
  does_pure (Except.ok value)

theorem does_throw (error : ε) :
    Does level (throw error : Attempt ε α).run machine (.error error) machine [] :=
  does_pure (Except.error error)

theorem does_change (next : Machine → Machine) :
    Does level (change next) machine () (next machine) [] := by
  intro written
  rw [List.filter_nil, List.append_nil]
  rfl

theorem does_setStack (stack : List Cell) :
    Does level (setStack stack) machine () { machine with stack := stack } [] :=
  does_change _

theorem does_write {event : Event} (hvisible : event.visibleAt level = true) :
    Does level (write event) machine () machine [event] := by
  intro written
  rw [List.filter_cons_of_pos hvisible, List.filter_nil]
  rfl

theorem does_note (entry : Record) :
    Does level (note level entry) machine () machine [.record entry] := by
  unfold note
  split
  · rename_i hsevere
    exact does_write (decide_eq_true hsevere)
  · rename_i hmild
    intro written
    rw [List.filter_cons_of_neg (by simpa [Event.visibleAt] using hmild), List.filter_nil,
      List.append_nil]
    rfl

theorem does_writeAll {events : List Event}
    (hvisible : ∀ event ∈ events, event.visibleAt level = true) :
    Does level (events.forM write) machine () machine events := by
  induction events with
  | nil => exact does_pure ()
  | cons event events ih =>
      have hevents := ih fun other hother => hvisible other (by simp [hother])
      exact (does_write (hvisible event (by simp))).bind hevents

-- Looking at the machine.
theorem Does.get {next : World → Attempt ε α} {result : Except ε α}
    (hnext : ∀ written, Does level (next ⟨machine, written⟩).run machine result after first) :
    Does level (do let world ← get; next world : Attempt ε α).run machine result after first := by
  intro written
  exact hnext written written

variable (level)

theorem does_resolve (cell : Cell) :
    Does level (resolve cell).run machine (machine.resolve cell) machine [] := by
  apply Does.get
  intro written
  simp only
  cases machine.resolve cell with
  | ok value => exact does_return value
  | error error => exact does_throw error

theorem does_resolve_popped {cell : Cell} {result : Except EvalError Binary64} (stack : List Cell)
    (h : machine.resolve cell = result) :
    Does level (resolve cell).run { machine with stack := stack } result
      { machine with stack := stack } [] := by
  rw [← h, ← machine.resolve_popped stack]
  exact does_resolve level cell

theorem does_assign (letter : Letter) (value : Binary64) :
    Does level (assign level letter value) machine ()
      { machine with bindings := machine.bindings.set letter value }
      [.record (.assignment letter.name value)] :=
  (does_change _).silent (does_note _)

theorem store_short (hshort : machine.stack.length < 2) :
    Does level (store level).run machine
      (.error (.stackUnderflow Token.assignMark machine.stack.length)) machine [] := by
  apply Does.get
  intro written
  simp only
  split
  · rename_i source target rest hstack
    exact absurd hshort (by simp [hstack])
  · exact does_throw _

theorem does_store (machine : Machine) :
    Does level (store level).run machine (outcome machine.store) machine.store.machine
      (machine.store.records.map .record) := by
  have hcases := machine.store_cases
  generalize machine.store = reaction at hcases ⊢
  cases hcases with
  | short hshort => exact store_short level hshort
  | noTarget source target rest hstack htarget =>
      apply Does.get
      intro written
      simp only [hstack]
      apply (does_setStack _).lift.attempt
      simp only [htarget]
      exact does_throw _
  | sourceFails source target rest letter error hstack htarget hsource =>
      apply Does.get
      intro written
      simp only [hstack]
      apply (does_setStack _).lift.attempt
      simp only [htarget]
      exact (does_resolve_popped level rest hsource).attempt_failed _
  | done source target rest letter value hstack htarget hsource =>
      apply Does.get
      intro written
      simp only [hstack]
      apply (does_setStack _).lift.attempt
      simp only [htarget]
      apply (does_resolve_popped level rest hsource).attempt
      exact (does_assign level letter value).lift

theorem does_push (cell : Cell) :
    Does level (liftM (push cell) : Attempt EvalError Unit).run machine (.ok ())
      (machine.push cell).machine [] :=
  (does_change _).lift

theorem does_top (machine : Machine) : Does level top.run machine machine.top machine [] := by
  apply Does.get
  intro written
  unfold Machine.top
  cases machine.stack with
  | nil => exact does_return none
  | cons cell rest =>
      have hcell : Does level (resolve cell).run machine (machine.resolve cell) machine [] :=
        does_resolve level cell
      simp only
      cases hvalue : machine.resolve cell with
      | ok value =>
          rw [hvalue] at hcell
          exact hcell.attempt (does_return (some value))
      | error error =>
          rw [hvalue] at hcell
          exact hcell.attempt_failed _

theorem does_prompt (prompt : String) :
    Does level ((Console.promptEvents prompt).forM write) machine () machine
      (Console.promptEvents prompt) := by
  apply does_writeAll
  unfold Console.promptEvents
  split <;> simp [Event.visibleAt]

theorem does_farewell (prompt : String) :
    Does level ((Console.farewellEvents prompt).forM write) machine () machine
      (Console.farewellEvents prompt) := by
  apply does_writeAll
  unfold Console.farewellEvents
  split <;> simp [Event.visibleAt]

variable [Power]

theorem does_compute_none {op : Operator} {lhs rhs : Binary64} (h : op.compute? lhs rhs = none) :
    Does level (compute level op lhs rhs).run machine (.error .divisionByZero) machine [] := by
  unfold compute
  rw [h]
  exact does_throw _

theorem does_compute_some {op : Operator} {lhs rhs value : Binary64}
    (h : op.compute? lhs rhs = some value) :
    Does level (compute level op lhs rhs).run machine (.ok value) machine
      [.record (.operation op lhs rhs value)] := by
  unfold compute
  rw [h]
  exact (does_note _).lift.attempt (does_return value)

-- Where a cell is missing there is an underflow.
theorem operate_short {op : Operator} (hshort : machine.stack.length < 2) :
    Does level (operate level op).run machine
      (.error (.stackUnderflow op.symbol machine.stack.length)) machine [] := by
  apply Does.get
  intro written
  simp only
  split
  · rename_i right left rest hstack
    exact absurd hshort (by simp [hstack])
  · exact does_throw _

theorem does_operate (op : Operator) (machine : Machine) :
    Does level (operate level op).run machine (outcome (machine.operate op))
      (machine.operate op).machine ((machine.operate op).records.map .record) := by
  have hcases := machine.operate_cases op
  generalize machine.operate op = reaction at hcases ⊢
  cases hcases with
  | short hshort => exact operate_short level hshort
  | rightFails right left rest error hstack hright =>
      apply Does.get
      intro written
      simp only [hstack]
      apply (does_setStack _).lift.attempt
      exact (does_resolve_popped level _ hright).attempt_failed _
  | leftFails right left rest rhs error hstack hright hleft =>
      apply Does.get
      intro written
      simp only [hstack]
      apply (does_setStack _).lift.attempt
      apply (does_resolve_popped level _ hright).attempt
      apply (does_setStack _).lift.attempt
      exact (does_resolve_popped level rest hleft).attempt_failed _
  | noResult right left rest rhs lhs hstack hright hleft hresult =>
      apply Does.get
      intro written
      simp only [hstack]
      apply (does_setStack _).lift.attempt
      apply (does_resolve_popped level _ hright).attempt
      apply (does_setStack _).lift.attempt
      apply (does_resolve_popped level rest hleft).attempt
      exact (does_compute_none level hresult).attempt_failed _
  | done right left rest rhs lhs value hstack hright hleft hresult =>
      apply Does.get
      intro written
      simp only [hstack]
      apply (does_setStack _).lift.attempt
      apply (does_resolve_popped level _ hright).attempt
      apply (does_setStack _).lift.attempt
      apply (does_resolve_popped level rest hleft).attempt
      apply (does_compute_some level hresult).attempt
      exact (does_setStack _).lift

theorem does_handle (token : Token) (machine : Machine) :
    Does level (handle level token).run machine (outcome (machine.step token))
      (machine.step token).machine ((machine.step token).records.map .record) := by
  cases token with
  | blank => exact does_return ()
  | number numeral => exact does_push level _
  | operator op => exact does_operate level op machine
  | assign => exact does_store level machine
  | «variable» letter => exact does_push level _
  | unknown word => exact does_throw _

theorem does_tokens (tokens : List Token) (machine : Machine) :
    Does level (tokens.forM (handle level)).run machine (outcome (machine.run tokens))
      (machine.run tokens).machine ((machine.run tokens).records.map .record) := by
  induction tokens generalizing machine with
  | nil => exact does_return ()
  | cons token tokens ih =>
      have htoken := does_handle level token machine
      change Does level
        (do handle level token; tokens.forM (handle level) : Attempt EvalError Unit).run _ _ _ _
      rw [Machine.run_cons]
      cases hfailure : (machine.step token).failure with
      | some error =>
          rw [Reaction.andThen_failed _ hfailure]
          simp only [outcome, hfailure] at htoken ⊢
          exact htoken.attempt_failed _
      | none =>
          simp only [outcome, hfailure] at htoken
          simp only [Reaction.andThen, hfailure, List.map_append]
          exact htoken.attempt (ih _)

-- A line, up to its value or its error.
theorem does_line (line : String) (machine : Machine) :
    Does level (do (Machine.tokens line).forM (handle level); top : Attempt EvalError _).run
      machine.reset (machine.evaluate line).result (machine.evaluate line).machine
      ((machine.reset.run (Machine.tokens line)).records.map .record) := by
  have htokens := does_tokens level (Machine.tokens line) machine.reset
  rw [ExceptT.run_bind]
  apply htokens.last
  cases hfailure : (machine.reset.run (Machine.tokens line)).failure with
  | some error =>
      rw [Machine.result_of_failure hfailure, outcome, hfailure]
      exact does_pure _
  | none =>
      rw [Machine.result_of_done hfailure, outcome, hfailure]
      exact does_top level _

theorem does_evaluate (line : String) (machine : Machine) :
    Does level (evaluate level line).run machine (machine.evaluate line).result
      (machine.evaluate line).machine ((machine.evaluate line).records.map .record) := by
  have hline := does_line level line machine
  cases hresult : (machine.evaluate line).result with
  | error error =>
      rw [hresult] at hline
      rw [Machine.records_of_error hresult, List.map_cons, List.map_append]
      apply (does_change Machine.reset).lift.attempt
      apply (does_note (.tokens (Text.words line))).lift.attempt
      apply hline.caught
      exact (does_note (.failed line error)).lift.attempt (does_throw error)
  | ok value =>
      rw [hresult] at hline
      rw [Machine.records_of_ok hresult, List.map_cons]
      apply (does_change Machine.reset).lift.attempt
      apply (does_note (.tokens (Text.words line))).lift.attempt
      exact hline.uncaught _

theorem does_answer (line : String) (machine : Machine) :
    Does level (answer level line) machine (machine.answer line).succeeded
      (machine.answer line).machine (machine.answer line).events := by
  have hline := does_evaluate level line machine
  cases hresult : (machine.evaluate line).result with
  | error error =>
      rw [hresult] at hline
      simp only [Machine.answer, hresult]
      apply hline.bind
      exact (does_write rfl).last ((does_change _).silent (does_pure false))
  | ok value =>
      rw [hresult] at hline
      cases value with
      | none =>
          simp only [Machine.answer, hresult]
          exact hline.last (does_pure true)
      | some number =>
          simp only [Machine.answer, hresult]
          exact hline.bind ((does_write rfl).last (does_pure true))

theorem does_answerAll {values : List (Option String)} (hvalues : none ∉ values)
    (machine : Machine) :
    Does level (answerAll level values).run machine
      (.ok (machine.answerAll (CommandLine.front values)).failures)
      (machine.answerAll (CommandLine.front values)).machine
      (machine.answerAll (CommandLine.front values)).events := by
  induction values generalizing machine with
  | nil => exact does_return 0
  | cons value rest ih =>
      cases value with
      | none => exact absurd List.mem_cons_self hvalues
      | some line =>
          have hrest := ih (List.not_mem_of_not_mem_cons hvalues) (machine.answer line).machine
          simp only [CommandLine.front, Machine.answerAll, Run.cons, List.nil_append]
          exact (does_answer level line machine).lift.attempt (hrest.attempt_last (does_return _))

-- The first value that is no text ends the batch, and what was written before it stays.
theorem answerAll_breaks {values : List (Option String)} (hvalues : none ∈ values)
    (machine : Machine) :
    Does level (answerAll level values).run machine (.error .expression)
      (machine.answerAll (CommandLine.front values)).machine
      (machine.answerAll (CommandLine.front values)).events := by
  induction values generalizing machine with
  | nil => exact absurd hvalues List.not_mem_nil
  | cons value rest ih =>
      cases value with
      | none => exact does_throw _
      | some line =>
          have hrest := ih (by simpa using hvalues) (machine.answer line).machine
          simp only [CommandLine.front, Machine.answerAll, Run.cons, List.nil_append]
          exact (does_answer level line machine).lift.attempt (hrest.attempt_failed _)

theorem does_batch {values : List (Option String)} (hvalues : none ∉ values) (machine : Machine) :
    Does level (batch level values).run machine
      (.ok (machine.batch (CommandLine.front values)).exitCode)
      (machine.batch (CommandLine.front values)).machine
      (machine.batch (CommandLine.front values)).events := by
  have hlines := does_answerAll level hvalues machine
  unfold batch Machine.batch
  by_cases hfailures : (machine.answerAll (CommandLine.front values)).failures = 0
  · simp only [hfailures, ite_true, Run.exitCode]
    rw [hfailures] at hlines
    exact hlines.attempt_last (does_return 0)
  · simp only [hfailures, ite_false, Run.exitCode, CommandLine.length_front hvalues]
    apply hlines.attempt
    simp only [hfailures, ite_false]
    exact (does_note _).lift.attempt_last (does_return 1)

theorem batch_breaks {values : List (Option String)} (hvalues : none ∈ values) (machine : Machine) :
    Does level (batch level values).run machine (.error .expression)
      (machine.answerAll (CommandLine.front values)).machine
      (machine.answerAll (CommandLine.front values)).events :=
  (answerAll_breaks level hvalues machine).attempt_failed _

theorem does_dialogue (prompt : String) (reads : List Read) (machine : Machine) :
    Does level (dialogue level prompt reads) machine () (machine.dialogue prompt reads).machine
      (machine.dialogue prompt reads).events := by
  induction reads generalizing machine with
  | nil => exact (does_prompt level prompt).bind (does_farewell level prompt)
  | cons read rest ih =>
      cases read with
      | line text =>
          simp only [Machine.dialogue, Run.cons, List.append_assoc]
          exact (does_prompt level prompt).bind ((does_answer level text machine).bind (ih _))
      | endOfInput => exact (does_prompt level prompt).bind (does_farewell level prompt)
      | interrupt => exact (does_prompt level prompt).bind (does_farewell level prompt)

end Logged

namespace CommandLine

variable [Power]

-- All that happens in a call with these options. The level plays no part in it.
def happening (options : Options) (input : String) (terminal : Bool) : Outcome :=
  if options.expressions = [] then
    let run := Machine.initial.dialogue
      (if terminal && !options.promptHidden then Console.prompt else "")
      (Console.reads none (Text.lines (Text.unifyLineEnds input)))
    ⟨0, .record (.loopStarted terminal) :: run.events⟩
  else batch options.expressions

theorem happening_level (options : Options) (level : Option Level) (input : String)
    (terminal : Bool) :
    happening { options with level := level } input terminal = happening options input terminal := rfl

theorem run_of_options {edition : Edition} {arguments : List String} {options : Options}
    {level : Level} (h : Options.ofArguments edition arguments = .ok options)
    (hlevel : options.level = some level) (input : String) (terminal : Bool) :
    run edition arguments input terminal =
      ⟨(happening options input terminal).exitCode,
        (happening options input terminal).events.filter (·.visibleAt level)⟩ := by
  simp only [run, start, happening, h, hlevel]
  by_cases hexpressions : options.expressions = []
  · simp only [hexpressions, ite_true]
    rfl
  · simp only [hexpressions, ite_false]

end CommandLine

namespace Logged

variable [Power]

-- A call with a level comes to its end, or breaks off at an expression and has nothing left to
-- report but that.
theorem does_perform {options : CommandLine.Options} {level : Level}
    (hlevel : options.level = some level) (input : String) (terminal : Bool) :
    let seen := CommandLine.happening options input terminal
    (∃ next, Does level (perform options input terminal).run .initial (.ok seen.exitCode) next
      seen.events) ∨
    ∃ next events, Does level (perform options input terminal).run .initial (.error .expression) next
      events ∧ seen = ⟨1, events ++ [.error CommandLine.Crash.expression.report]⟩ := by
  simp only [perform, CommandLine.happening, CommandLine.batch, hlevel]
  by_cases hexpressions : options.expressions = []
  · simp only [hexpressions, ite_true]
    have hloop := does_dialogue level
      (if terminal && !options.promptHidden then Console.prompt else "")
      (Console.reads none (Text.lines (Text.unifyLineEnds input))) .initial
    exact .inl ⟨_, (does_note _).lift.attempt (hloop.lift.attempt_last (does_return 0))⟩
  · by_cases hvalues : none ∈ options.expressions
    · simp only [hexpressions, hvalues, ite_true, ite_false]
      have hbatch := batch_breaks level hvalues .initial
      exact .inr ⟨_, _, (does_note _).lift.attempt hbatch, rfl⟩
    · simp only [hexpressions, hvalues, ite_false]
      have hbatch := does_batch level hvalues .initial
      exact .inl ⟨_, (does_note _).lift.attempt hbatch⟩

theorem does_call {options : CommandLine.Options} {level : Level}
    (hlevel : options.level = some level) (input : String) (terminal : Bool) :
    ∃ next, Does level (call options input terminal) .initial
      (CommandLine.happening options input terminal).exitCode next
      (CommandLine.happening options input terminal).events := by
  rcases does_perform hlevel input terminal with ⟨next, hdone⟩ | ⟨next, events, hbroken, hseen⟩
  · exact ⟨next, hdone.last (does_pure _)⟩
  · rw [hseen]
    exact ⟨next, hbroken.bind ((does_write rfl).last (does_pure 1))⟩

-- A log that is written as it goes makes the same call as one that is looked through at the end.
theorem run_eq (edition : CommandLine.Edition) (arguments : List String) (input : String)
    (terminal : Bool) :
    run edition arguments input terminal = CommandLine.run edition arguments input terminal := by
  cases hoptions : CommandLine.Options.ofArguments edition arguments with
  | error exit =>
      simp only [run, CommandLine.run, CommandLine.start, hoptions]
      cases exit <;> rfl
  | ok options =>
      cases hlevel : options.level with
      | none =>
          simp only [run, CommandLine.run, CommandLine.start, hoptions, hlevel, call, perform]
          rfl
      | some level =>
          obtain ⟨next, hdoes⟩ := does_call hlevel input terminal
          rw [CommandLine.run_of_options hoptions hlevel]
          simp only [run, hoptions]
          rw [hdoes [], List.nil_append]

end Logged

end PostfixCalc
