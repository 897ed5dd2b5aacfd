import Mathlib.Logic.Function.Iterate
import PostfixCalc.CommandLine
import PostfixCalc.Proofs.Text.Lines

namespace PostfixCalc

-- No record is as severe as the standard level asks for.
theorem Event.visibleAt_record (entry : Record) :
    (Event.record entry).visibleAt .standard = false := by
  cases entry <;> rfl

-- Nothing is too mild for the lowest level.
theorem Event.visibleAt_debug (event : Event) : event.visibleAt .debug = true := by
  cases event with
  | output text => rfl
  | error text => rfl
  | record entry => cases entry <;> rfl

namespace Console

theorem shown_append (first second : List Event) :
    shown (first ++ second) = shown first ++ shown second := List.filter_append ..

theorem outputText_append (first second : List Event) :
    outputText (first ++ second) = outputText first ++ outputText second := by
  rw [outputText, List.map_append, String.join_append]
  rfl

theorem errorText_append (time : String) (first second : List Event) :
    errorText time (first ++ second) = errorText time first ++ errorText time second := by
  rw [errorText, List.map_append, String.join_append]
  rfl

theorem shown_records (entries : List Record) : shown (entries.map Event.record) = [] := by
  induction entries with
  | nil => rfl
  | cons entry entries ih =>
      rw [List.map_cons, shown, List.filter_cons_of_neg (by simp [Event.visibleAt_record])]
      exact ih

-- What is shown of a line with the given result.
def verdict : Except EvalError (Option Binary64) → List Event
  | .error error => [.error (reportText error.message ++ "\n")]
  | .ok none => []
  | .ok (some value) => [.output (resultText value ++ "\n")]

theorem shown_verdict (result : Except EvalError (Option Binary64)) :
    shown (verdict result) = verdict result := by
  obtain _ | (_ | _) := result <;> rfl

end Console

namespace Machine

variable [Power]

theorem events_answer (machine : Machine) (line : String) :
    (machine.answer line).events = (machine.evaluate line).records.map Event.record ++
      Console.verdict (machine.evaluate line).result := by
  unfold answer
  generalize machine.evaluate line = evaluation
  obtain ⟨next, result, records⟩ := evaluation
  obtain error | (_ | value) := result
  · rfl
  · exact (List.append_nil _).symm
  · rfl

theorem shown_answer (machine : Machine) (line : String) :
    Console.shown (machine.answer line).events =
      Console.verdict (machine.evaluate line).result := by
  rw [events_answer, Console.shown_append, Console.shown_records, Console.shown_verdict,
    List.nil_append]

-- Apart from the records, lines with the same words have the same answer.
theorem answer_congr (machine : Machine) {line other : String}
    (hwords : Text.words line = Text.words other) :
    (machine.answer line).machine = (machine.answer other).machine ∧
      Console.shown (machine.answer line).events = Console.shown (machine.answer other).events := by
  have htokens : tokens line = tokens other := by rw [tokens, hwords, tokens]
  have hresult : (machine.evaluate line).result = (machine.evaluate other).result := by
    simp only [evaluate, htokens]
  have hmachine : (machine.evaluate line).machine = (machine.evaluate other).machine := by
    simp only [evaluate, htokens]
  rw [shown_answer, shown_answer, hresult]
  refine ⟨?_, rfl⟩
  simp only [answer, hresult, hmachine]
  cases (machine.evaluate other).result with
  | error error => rfl
  | ok value => cases value <;> rfl

-- A blank line is passed over.
theorem answer_blank (machine : Machine) {line : String} (hline : Text.words line = []) :
    (machine.answer line).machine.bindings = machine.bindings ∧
      Console.shown (machine.answer line).events = [] := by
  have htokens : tokens line = [] := by rw [tokens, hline, List.map_nil]
  have hresult : (machine.evaluate line).result = .ok none := by
    simp only [evaluate, htokens]
    rfl
  rw [shown_answer, hresult]
  refine ⟨?_, rfl⟩
  simp only [answer, hresult]
  simp only [evaluate, htokens]
  rfl

end Machine

-- What can be told of a run from outside: what is shown at the standard level on either stream,
-- in its order, and the variables.
def Run.seen (run : Run) : List Event × Bindings := (Console.shown run.events, run.machine.bindings)

theorem Run.shown_eq {first second : Run} (h : first.seen = second.seen) :
    Console.shown first.events = Console.shown second.events :=
  congrArg Prod.fst h

namespace Machine

variable [Power]

theorem seen_answerAll_cons (machine : Machine) (line : String) (rest : List String) :
    (machine.answerAll (line :: rest)).seen =
      (Console.shown (machine.answer line).events ++
          ((machine.answer line).machine.answerAll rest).seen.1,
        ((machine.answer line).machine.answerAll rest).seen.2) := by
  simp only [answerAll, Run.cons, Run.seen, List.nil_append, Console.shown_append]

theorem seen_answerAll (machine : Machine) {lines others : List String}
    (h : Text.SameWords lines others) :
    (machine.answerAll lines).seen = (machine.answerAll others).seen := by
  induction h generalizing machine with
  | nil => rfl
  | blank line hline =>
      obtain ⟨hbindings, hshown⟩ := machine.answer_blank hline
      rw [seen_answerAll_cons, hshown]
      simp only [answerAll, Run.seen, hbindings]
      rfl
  | cons line other lines others hwords _ ih =>
      obtain ⟨hmachine, hshown⟩ := machine.answer_congr hwords
      rw [seen_answerAll_cons, seen_answerAll_cons, hshown, hmachine, ih]

-- The count of the failures goes to the log.
theorem seen_batch (machine : Machine) (expressions : List String) :
    (machine.batch expressions).seen = (machine.answerAll expressions).seen := by
  unfold batch
  simp only
  split
  · rfl
  · simp only [Run.seen, Console.shown_append]
    simp [Console.shown, Event.visibleAt_record]

-- Without a prompt and an interrupt, a dialogue is no more than the answers to its lines.
theorem dialogue_eq_answerAll (machine : Machine) (lines : List String) :
    machine.dialogue "" (Console.reads none lines) = machine.answerAll lines := by
  induction lines generalizing machine with
  | nil => rfl
  | cons line rest ih =>
      rw [Console.reads, dialogue, answerAll, ih]
      rfl

end Machine

namespace LineLoop

variable [Power]

-- A turn takes a line off the input and answers it.
theorem turn_line (prompt : String) (machine : Machine) (events : List Event)
    {input line rest : List Char} (hline : line ≠ []) (htake : Text.takeLine input = (line, rest)) :
    turn prompt ⟨input, machine, events, none⟩ =
      ⟨rest, (machine.answer (String.ofList line)).machine,
        events ++ Console.promptEvents prompt ++ (machine.answer (String.ofList line)).events,
        none⟩ := by
  obtain ⟨c, line, rfl⟩ := List.exists_cons_of_ne_nil hline
  simp only [turn, htake]

-- The loop comes to its end from here, and then has done what the dialogue over the lines that
-- are still to be read does.
def Finishes (prompt : String) (loop : LineLoop) : Prop :=
  let run := loop.machine.dialogue prompt
    (Console.reads none ((Text.linesOf loop.input).map String.ofList))
  ∃ turns, (turn prompt)^[turns] loop = ⟨[], run.machine, loop.events ++ run.events, some 0⟩

theorem finishes_end (prompt : String) (machine : Machine) (events : List Event) :
    Finishes prompt ⟨[], machine, events, none⟩ := by
  refine ⟨1, ?_⟩
  simp [turn, Text.takeLine, Text.linesOf, Console.reads, Machine.dialogue]

theorem finishes_line (prompt : String) (machine : Machine) (events : List Event)
    {input line rest : List Char} (hline : line ≠ []) (htake : Text.takeLine input = (line, rest))
    (hlines : Text.linesOf input = line :: Text.linesOf rest)
    (hrest : ∀ machine events, Finishes prompt ⟨rest, machine, events, none⟩) :
    Finishes prompt ⟨input, machine, events, none⟩ := by
  have hturn := turn_line prompt machine events hline htake
  obtain ⟨turns, hturns⟩ := hrest (machine.answer (String.ofList line)).machine
    (events ++ Console.promptEvents prompt ++ (machine.answer (String.ofList line)).events)
  refine ⟨turns + 1, ?_⟩
  rw [Function.iterate_succ_apply, hturn, hturns]
  simp only [hlines, List.map_cons, Console.reads, Machine.dialogue, Run.cons, List.append_assoc]

-- Every turn but the last takes a line off the input, so that the loop comes to its end.
theorem finishes (prompt : String) (machine : Machine) (events : List Event) (input : List Char) :
    Finishes prompt ⟨input, machine, events, none⟩ := by
  induction input using Text.lines_induction generalizing machine events with
  | last line hline =>
      by_cases hnil : line = []
      · rw [hnil]
        exact finishes_end prompt machine events
      · have hlines := Text.linesOf_last line hline
        rw [if_neg hnil] at hlines
        exact finishes_line prompt machine events hnil (Text.takeLine_last line hline) hlines
          (finishes_end prompt)
  | next line rest hline ih =>
      exact finishes_line prompt machine events (by simp) (Text.takeLine_append line rest hline)
        (Text.linesOf_append line rest hline) ih

end LineLoop

-- Without arguments and a terminal the program is a dialogue without a prompt. The record of its
-- start is below the standard level.
theorem CommandLine.run_nil [Power] (edition : Edition) (input : String) :
    run edition [] input false = ⟨0, Console.shown (Machine.initial.dialogue ""
      (Console.reads none (Text.lines (Text.unifyLineEnds input)))).events⟩ := by
  have hstart : start edition [] false = .loop .standard "" [.record (.loopStarted false)] := rfl
  unfold run
  rw [hstart]
  simp only [List.singleton_append]
  rw [List.filter_cons_of_neg (by simp [Event.visibleAt_record])]
  rfl

-- Without a prompt, a text that is read line by line does what its pieces do as a batch, on either
-- stream and to the variables. The loop comes to an end, with exit code 0. Carriage returns in
-- front of the line feeds make no difference, be they blanks for the words of a line or taken away
-- on the way in.
theorem dialogue_seen_as_batch [Power] (text : String) :
    let dialogue := fun input : String =>
      Machine.initial.dialogue "" (Console.reads none (Text.lines input))
    let ends := fun input : String => ∃ turns,
      (LineLoop.turn "")^[turns] (.start .initial input) =
        ⟨[], (dialogue input).machine, (dialogue input).events, some 0⟩
    let batch := Machine.initial.batch (Text.pieces text)
    (ends text ∧ (dialogue text).seen = batch.seen) ∧
    (ends (Text.withReturns text) ∧ (dialogue (Text.withReturns text)).seen = batch.seen) ∧
    (Text.ReturnsPaired text.toList → ∀ edition,
      CommandLine.run edition [] text false = ⟨0, Console.shown batch.events⟩) := by
  intro dialogue ends batch
  have hends (input : String) : ends input :=
    LineLoop.finishes "" .initial [] input.toList
  have hseen (input : String) (hwords : Text.SameWords (Text.lines input) (Text.pieces text)) :
      (dialogue input).seen = batch.seen :=
    calc (dialogue input).seen
      _ = (Machine.initial.answerAll (Text.lines input)).seen := by
        rw [← Machine.dialogue_eq_answerAll]
      _ = (Machine.initial.answerAll (Text.pieces text)).seen :=
        Machine.initial.seen_answerAll hwords
      _ = batch.seen := (Machine.initial.seen_batch _).symm
  refine ⟨⟨hends text, hseen text (Text.sameWords_lines text)⟩,
    ⟨hends _, hseen _ (Text.sameWords_withReturns text)⟩, ?_⟩
  intro hpaired edition
  have hunified := hseen _ (Text.sameWords_unified text hpaired)
  rw [CommandLine.run_nil, Run.shown_eq hunified]

-- A blank line in the middle, and a last line without a line feed.
theorem dialogue_seen_as_batch_returns :
    let text := "A 2 =\r\n\r\nA B +\nA A *"
    Text.ReturnsPaired text.toList ∧
      (CommandLine.run .standard [] text false).events =
        [.error "Error: Unassigned variable: B\n", .output "[4]\n"] := by
  intro text
  have hpaired : Text.ReturnsPaired text.toList := by
    intro place hplace
    have hbound : place < text.toList.length := (List.getElem?_eq_some_iff.mp hplace).1
    have hplaces : ∀ place < text.toList.length,
        text.toList[place]? = some '\r' → text.toList[place + 1]? = some '\n' := by decide
    exact hplaces place hbound hplace
  have hrun := (dialogue_seen_as_batch text).2.2 hpaired .standard
  refine ⟨hpaired, ?_⟩
  rw [hrun]
  decide +kernel

end PostfixCalc
