import Mathlib.Data.List.Forall2
import PostfixCalc.Proofs.Console.Messages
import PostfixCalc.Proofs.Console.Results

namespace PostfixCalc

-- Lines one after the other, each with a line feed behind it.
def Text.unlines (lines : List String) : String := String.join (lines.map (· ++ "\n"))

theorem Text.unlines_append (first second : List String) :
    unlines (first ++ second) = unlines first ++ unlines second := by
  rw [unlines, List.map_append, String.join_append]
  rfl

namespace Console

-- The events write these lines on the two streams and no other text. The line feeds behind them are
-- the only line breaks.
structure Prints (events : List Event) (output error : List String) : Prop where
  outputText : Console.outputText events = Text.unlines output
  errorText : ∀ time, Console.errorText time events = Text.unlines error
  isLine : ∀ line ∈ output ++ error, Text.IsLine line.toList

namespace Prints

theorem nil : Prints [] [] [] := ⟨rfl, fun _ => rfl, by simp⟩

theorem append {first second : List Event} {output output' error error' : List String}
    (hfirst : Prints first output error) (hsecond : Prints second output' error') :
    Prints (first ++ second) (output ++ output') (error ++ error') where
  outputText := by
    rw [outputText_append, hfirst.outputText, hsecond.outputText, Text.unlines_append]
  errorText time := by
    rw [errorText_append, hfirst.errorText, hsecond.errorText, Text.unlines_append]
  isLine line hline := by
    have hone := hfirst.isLine line
    have htwo := hsecond.isLine line
    simp only [List.mem_append] at hone htwo hline
    tauto

end Prints

end Console

-- What a line comes to on each of the two streams: a line there, or nothing.
structure Written where
  output : Option String
  error : Option String

namespace Evaluation

def Fails (evaluation : Evaluation) : Prop := ∃ error, evaluation.result = .error error

theorem fails_iff {evaluation : Evaluation} :
    evaluation.Fails ↔ evaluation.result.isOk = false := by
  unfold Fails
  cases evaluation.result <;> simp [Except.isOk, Except.toBool]

-- An error is told on the one stream. A value is told on the other, and there is one if something is
-- left on the stack.
inductive Writes (evaluation : Evaluation) : Written → Prop where
  | error (error : EvalError) (h : evaluation.result = .error error) :
      Writes evaluation ⟨none, some (Console.reportText error.message)⟩
  | value (value : Binary64) (h : evaluation.result = .ok (some value))
      (hstack : evaluation.machine.stack ≠ []) :
      Writes evaluation ⟨some (Console.resultText value), none⟩
  | nothing (h : evaluation.result = .ok none) (hstack : evaluation.machine.stack = []) :
      Writes evaluation ⟨none, none⟩

end Evaluation

namespace Machine

variable [Power]

-- The lines of a batch, each evaluated on the machine that the answers to those before it left.
def evaluations (machine : Machine) : List String → List Evaluation
  | [] => []
  | line :: rest => machine.evaluate line :: (machine.answer line).machine.evaluations rest

theorem results_eq_map (machine : Machine) (lines : List String) :
    machine.results lines = (machine.evaluations lines).map (·.result) := by
  induction lines generalizing machine with
  | nil => rfl
  | cons line rest ih => rw [results, evaluations, List.map_cons, ih]

theorem evaluations_append (machine : Machine) (first second : List String) :
    machine.evaluations (first ++ second) =
      machine.evaluations first ++ (machine.answerAll first).machine.evaluations second := by
  induction first generalizing machine with
  | nil => rfl
  | cons line rest ih =>
      rw [List.cons_append, evaluations, evaluations, ih]
      rfl

theorem evaluations_concat (machine : Machine) (before : List String) (line : String) :
    machine.evaluations (before ++ [line]) =
      machine.evaluations before ++ [(machine.answerAll before).machine.evaluate line] :=
  machine.evaluations_append before [line]

theorem getElem?_evaluations (machine : Machine) (lines : List String) (place : Nat) :
    (machine.evaluations lines)[place]? =
      lines[place]?.map (machine.answerAll (lines.take place)).machine.evaluate := by
  induction lines generalizing machine place with
  | nil => rfl
  | cons line rest ih =>
      cases place with
      | zero => rfl
      | succ place => exact ih (machine.answer line).machine place

-- A line that goes through has no value exactly if it leaves nothing on the stack.
theorem eq_none_iff_of_result {machine : Machine} {line : String} {value : Option Binary64}
    (h : (machine.evaluate line).result = .ok value) :
    value = none ↔ (machine.evaluate line).machine.stack = [] := by
  have htop : (machine.evaluate line).machine.top = .ok value := by
    cases hfailure : (machine.reset.run (tokens line)).failure with
    | some error => exact absurd h (by simp [result_of_failure hfailure])
    | none => rwa [result_of_done hfailure] at h
  rw [← top_eq_none_iff, htop]
  simp

theorem exists_writes (machine : Machine) (line : String) :
    ∃ written, (machine.evaluate line).Writes written ∧
      Console.Prints (Console.verdict (machine.evaluate line).result) written.output.toList
        written.error.toList := by
  cases hresult : (machine.evaluate line).result with
  | error error =>
      refine ⟨_, .error error hresult, ?_, ?_, ?_⟩
      · rfl
      · intro time
        rfl
      · simpa using Console.isLine_reportText (isLine_message_evaluate hresult)
  | ok value =>
      have hstack := eq_none_iff_of_result hresult
      cases value with
      | none => exact ⟨_, .nothing hresult (hstack.mp rfl), .nil⟩
      | some value =>
          refine ⟨_, .value value hresult (fun h => absurd (hstack.mpr h) (by simp)), ?_, ?_, ?_⟩
          · rfl
          · intro time
            rfl
          · simpa using Console.isLine_resultText value

theorem exists_writes_all (machine : Machine) (lines : List String) :
    ∃ written, List.Forall₂ Evaluation.Writes (machine.evaluations lines) written ∧
      Console.Prints ((machine.results lines).flatMap Console.verdict)
        (written.filterMap (·.output)) (written.filterMap (·.error)) := by
  induction lines generalizing machine with
  | nil => exact ⟨[], .nil, .nil⟩
  | cons line rest ih =>
      obtain ⟨first, hwrites, hprints⟩ := machine.exists_writes line
      obtain ⟨later, hlater, hrest⟩ := ih (machine.answer line).machine
      refine ⟨first :: later, .cons hwrites hlater, ?_⟩
      have hprints := hprints.append hrest
      simp only [List.filterMap_eq_flatMap_toList] at hprints ⊢
      exact hprints

theorem exitCode_batch_iff (machine : Machine) (lines : List String) :
    ((machine.batch lines).exitCode = 1 ↔
      ∃ evaluation ∈ machine.evaluations lines, evaluation.Fails) ∧
        (machine.batch lines).exitCode ≤ 1 := by
  have hcount : (machine.results lines).countP (!·.isOk) = 0 ↔
      ¬∃ evaluation ∈ machine.evaluations lines, evaluation.Fails := by
    rw [results_eq_map, List.countP_map, List.countP_eq_zero]
    simp [Evaluation.fails_iff]
  rw [exitCode_batch]
  split_ifs with hzero
  · simpa using hcount.mp hzero
  · simpa using not_not.mp (mt hcount.mpr hzero)

theorem exitCode_batch_append (machine : Machine) (first second : List String) :
    (machine.batch (first ++ second)).exitCode =
      max (machine.batch first).exitCode
        ((machine.batch first).machine.batch second).exitCode := by
  rw [exitCode_batch, exitCode_batch, exitCode_batch, results_append, List.countP_append,
    machine_batch]
  split_ifs <;> omega

theorem stack_answer_of_fails {machine : Machine} {line : String}
    (h : (machine.evaluate line).Fails) : (machine.answer line).machine.stack = [] := by
  obtain ⟨error, herror⟩ := h
  simp only [answer, herror]
  rfl

theorem machine_batch_getLast? {machine : Machine} {lines : List String} {last : Evaluation}
    (h : last ∈ (machine.evaluations lines).getLast?) :
    (machine.batch lines).machine.bindings = last.machine.bindings ∧
      (last.Fails → (machine.batch lines).machine.stack = []) := by
  obtain rfl | ⟨before, line, rfl⟩ := List.eq_nil_or_concat' lines
  · exact absurd h (by simp [evaluations])
  · have hmachine : (machine.batch (before ++ [line])).machine =
        ((machine.answerAll before).machine.answer line).machine := by
      rw [machine_batch, machine_answerAll_append]
      rfl
    rw [evaluations_concat, List.getLast?_concat] at h
    obtain rfl := Option.some.inj h
    rw [hmachine]
    exact ⟨bindings_answer _ line, stack_answer_of_fails⟩

theorem shown_batch_append (machine : Machine) (first second : List String) :
    Console.shown (machine.batch (first ++ second)).events =
      Console.shown (machine.batch first).events ++
        Console.shown ((machine.batch first).machine.batch second).events := by
  rw [shown_batch, shown_batch, shown_batch, results_append, List.flatMap_append, machine_batch]

theorem machine_batch_append (machine : Machine) (first second : List String) :
    (machine.batch (first ++ second)).machine =
      ((machine.batch first).machine.batch second).machine := by
  rw [machine_batch, machine_batch, machine_batch, machine_answerAll_append]

end Machine

-- Every expression of a batch is evaluated, whether or not those before it failed, on the machine
-- that they left as a batch. What is written are lines, one for each error on the one stream and one
-- for each value on the other, in the order of the expressions, and nothing else. The batch fails if
-- and only if an expression does. Two batches are as good as one.
theorem batch_accounted [Power] (machine : Machine) (expressions : List String) :
    let run := machine.batch expressions
    let evaluations := machine.evaluations expressions
    (∀ place, evaluations[place]? =
      expressions[place]?.map (machine.batch (expressions.take place)).machine.evaluate) ∧
    (∃ written, List.Forall₂ Evaluation.Writes evaluations written ∧
      Console.Prints (Console.shown run.events) (written.filterMap (·.output))
        (written.filterMap (·.error))) ∧
    (run.exitCode = 1 ↔ ∃ evaluation ∈ evaluations, evaluation.Fails) ∧ run.exitCode ≤ 1 ∧
    (∀ last ∈ evaluations.getLast?, run.machine.bindings = last.machine.bindings ∧
      (last.Fails → run.machine.stack = [])) ∧
    ∀ more : List String,
      let next := run.machine.batch more
      let whole := machine.batch (expressions ++ more)
      Console.outputText (Console.shown whole.events) =
        Console.outputText (Console.shown run.events) ++
          Console.outputText (Console.shown next.events) ∧
      (∀ time, Console.errorText time (Console.shown whole.events) =
        Console.errorText time (Console.shown run.events) ++
          Console.errorText time (Console.shown next.events)) ∧
      whole.exitCode = max run.exitCode next.exitCode ∧ whole.machine = next.machine := by
  intro run evaluations
  obtain ⟨hcode, hbound⟩ := machine.exitCode_batch_iff expressions
  refine ⟨fun place => ?_, ?_, hcode, hbound, fun last => Machine.machine_batch_getLast?,
    fun more => ⟨?_, fun time => ?_, machine.exitCode_batch_append expressions more,
      machine.machine_batch_append expressions more⟩⟩
  · rw [Machine.machine_batch]
    exact machine.getElem?_evaluations expressions place
  · obtain ⟨written, hwrites, hprints⟩ := machine.exists_writes_all expressions
    rw [← Machine.shown_batch] at hprints
    exact ⟨written, hwrites, hprints⟩
  · rw [machine.shown_batch_append, Console.outputText_append]
  · rw [machine.shown_batch_append, Console.errorText_append]

-- The third line has a line separator in it, behind the token that it fails at.
theorem batch_accounted_failing_last :
    let before := ["A 2 =", "A A +", "A x\u2028y"]
    let run := Machine.initial.batch (before ++ ["A 0 /"])
    Console.shown run.events =
      [.output "[4]\n", .error "Error: Unknown token: x\n", .error "Error: Division by zero\n"] ∧
      run.exitCode = 1 ∧ run.machine.stack = [] := by
  intro before run
  let last := (Machine.initial.answerAll before).machine.evaluate "A 0 /"
  obtain ⟨-, -, hcode, -, hlast, -⟩ := batch_accounted .initial (before ++ ["A 0 /"])
  have hmem : last ∈ (Machine.initial.evaluations (before ++ ["A 0 /"])).getLast? := by
    rw [Machine.evaluations_concat]
    exact List.getLast?_concat
  have hfails : last.Fails := ⟨.divisionByZero, by decide +kernel⟩
  have hshown : Console.shown run.events =
      [.output "[4]\n", .error "Error: Unknown token: x\n", .error "Error: Division by zero\n"] := by
    decide +kernel
  have hrun : run = Machine.initial.batch (before ++ ["A 0 /"]) := rfl
  refine ⟨hshown, ?_⟩
  rw [hrun]
  exact ⟨hcode.mpr ⟨last, List.mem_of_getLast? hmem, hfails⟩, (hlast last hmem).2 hfails⟩

end PostfixCalc
