import PostfixCalc.Proofs.Console.Dialogue

namespace PostfixCalc.Machine

variable [Power]

-- What the lines of a batch come to, one after the other.
def results (machine : Machine) : List String → List (Except EvalError (Option Binary64))
  | [] => []
  | line :: rest => (machine.evaluate line).result :: (machine.answer line).machine.results rest

-- An answer clears the stack at most.
theorem bindings_answer (machine : Machine) (line : String) :
    (machine.answer line).machine.bindings = (machine.evaluate line).machine.bindings := by
  unfold answer
  simp only
  split <;> rfl

-- A line depends on the bindings and on nothing else that is there before it.
theorem evaluate_congr {first second : Machine} (h : first.bindings = second.bindings)
    (line : String) : first.evaluate line = second.evaluate line := by
  have hreset : first.reset = second.reset := by simp only [reset, h]
  simp only [evaluate, hreset]

theorem evaluate_answer (machine : Machine) (first second : String) :
    (machine.answer first).machine.evaluate second =
      (machine.evaluate first).machine.evaluate second :=
  evaluate_congr (machine.bindings_answer first) second

theorem succeeded_answer (machine : Machine) (line : String) :
    (machine.answer line).succeeded = (machine.evaluate line).result.isOk := by
  unfold answer
  simp only
  split
  · rename_i error hresult
    rw [hresult]
    rfl
  · rename_i hresult
    rw [hresult]
    rfl
  · rename_i value hresult
    rw [hresult]
    rfl

theorem results_append (machine : Machine) (first second : List String) :
    machine.results (first ++ second) =
      machine.results first ++ (machine.answerAll first).machine.results second := by
  induction first generalizing machine with
  | nil => rfl
  | cons line rest ih =>
      rw [List.cons_append, results, results, ih, answerAll]
      rfl

theorem machine_answerAll_append (machine : Machine) (first second : List String) :
    (machine.answerAll (first ++ second)).machine =
      ((machine.answerAll first).machine.answerAll second).machine := by
  induction first generalizing machine with
  | nil => rfl
  | cons line rest ih => exact ih (machine.answer line).machine

theorem length_results (machine : Machine) (lines : List String) :
    (machine.results lines).length = lines.length := by
  induction lines generalizing machine with
  | nil => rfl
  | cons line rest ih => rw [results, List.length_cons, ih, List.length_cons]

theorem failures_answerAll (machine : Machine) (lines : List String) :
    (machine.answerAll lines).failures = (machine.results lines).countP (!·.isOk) := by
  induction lines generalizing machine with
  | nil => rfl
  | cons line rest ih =>
      have hrest := ih (machine.answer line).machine
      have hline := machine.succeeded_answer line
      rw [results, List.countP_cons, ← hrest, ← hline]
      change (if (machine.answer line).succeeded then 0 else 1) + _ = _
      cases (machine.answer line).succeeded <;> simp [Nat.add_comm]

-- The results are all that a batch shows.
theorem shown_answerAll (machine : Machine) (lines : List String) :
    Console.shown (machine.answerAll lines).events =
      (machine.results lines).flatMap Console.verdict := by
  induction lines generalizing machine with
  | nil => rfl
  | cons line rest ih =>
      have hline := congrArg Prod.fst (machine.seen_answerAll_cons line rest)
      simp only [Run.seen, shown_answer, ih] at hline
      rw [hline, results, List.flatMap_cons]

theorem shown_batch (machine : Machine) (lines : List String) :
    Console.shown (machine.batch lines).events =
      (machine.results lines).flatMap Console.verdict := by
  rw [Run.shown_eq (machine.seen_batch lines), shown_answerAll]

theorem machine_batch (machine : Machine) (lines : List String) :
    (machine.batch lines).machine = (machine.answerAll lines).machine := by
  unfold batch
  simp only
  split <;> rfl

-- A batch fails if one of its results is an error.
theorem exitCode_batch (machine : Machine) (lines : List String) :
    (machine.batch lines).exitCode =
      if (machine.results lines).countP (!·.isOk) = 0 then 0 else 1 := by
  rw [← failures_answerAll]
  unfold batch Run.exitCode
  simp only
  split <;> rfl

end PostfixCalc.Machine
