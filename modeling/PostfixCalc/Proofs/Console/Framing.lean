import PostfixCalc.Proofs.Console.Dialogue

namespace PostfixCalc

namespace Console

theorem reads_interrupted (lines : List String) : reads (some 0) lines = [.interrupt] := by
  cases lines <;> rfl

theorem reads_endOfInput {patience : Option Nat} (h : patience ≠ some 0) :
    reads patience [] = [.endOfInput] := by
  obtain _ | _ | count := patience
  · rfl
  · exact absurd rfl h
  · rfl

theorem reads_line {patience : Option Nat} (h : patience ≠ some 0) (line : String)
    (rest : List String) :
    reads patience (line :: rest) = .line line :: reads (patience.map (· - 1)) rest := by
  obtain _ | _ | count := patience
  · rfl
  · exact absurd rfl h
  · rfl

-- The prompt and the farewell go to the output, whole, and nothing of them to the errors.
theorem outputText_promptEvents (prompt : String) :
    outputText (shown (promptEvents prompt)) = prompt := by
  by_cases h : prompt = ""
  · rw [h]
    rfl
  · rw [promptEvents, if_neg h]
    change String.join [prompt] = prompt
    rw [String.join_cons, String.join_nil, String.append_empty]

theorem outputText_farewellEvents {prompt : String} (h : prompt ≠ "") :
    outputText (shown (farewellEvents prompt)) = farewell ++ "\n" := by
  rw [farewellEvents, if_neg h]
  rfl

theorem errorText_promptEvents (prompt time : String) (level : Level) :
    errorText time ((promptEvents prompt).filter (·.visibleAt level)) = "" := by
  unfold promptEvents
  split <;> rfl

theorem errorText_farewellEvents (prompt time : String) (level : Level) :
    errorText time ((farewellEvents prompt).filter (·.visibleAt level)) = "" := by
  unfold farewellEvents
  split <;> rfl

end Console

namespace InterruptedLoop

variable [Power]

-- From some turn on the loop is over, with exit code 0, and has done from here what the run does.
def Ends (prompt : String) (state : InterruptedLoop) (run : Run) : Prop :=
  ∃ turns, ∀ more,
    let last := ((turn prompt)^[turns + more] state).loop
    last.machine = run.machine ∧ last.events = state.loop.events ++ run.events ∧
      last.exitCode = some 0

variable (prompt : String) (machine : Machine) (events : List Event)

-- A loop that is over stays as it is.
theorem iterate_turn_over {state : InterruptedLoop} {code : Nat}
    (h : state.loop.exitCode = some code) (more : Nat) :
    ((turn prompt)^[more] state).loop = state.loop := by
  induction more generalizing state with
  | zero => rfl
  | succ more ih =>
      have hturn : (turn prompt state).loop = state.loop := by
        unfold turn
        split <;> simp [LineLoop.leave, LineLoop.turn, h]
      rw [Function.iterate_succ_apply, ih (by rw [hturn, h]), hturn]

theorem ends_of_turn {state : InterruptedLoop} {run : Run}
    (hturn : (turn prompt state).loop =
      ⟨state.loop.input, run.machine, state.loop.events ++ run.events, some 0⟩) :
    Ends prompt state run := by
  refine ⟨1, fun more => ?_⟩
  rw [Nat.add_comm, Function.iterate_succ_apply, iterate_turn_over prompt (by rw [hturn]) more,
    hturn]
  exact ⟨rfl, rfl, rfl⟩

theorem ends_interrupted (input : List Char) :
    Ends prompt ⟨⟨input, machine, events, none⟩, some 0⟩ (machine.dialogue prompt [.interrupt]) := by
  apply ends_of_turn
  rw [turn, if_pos rfl]
  simp only [LineLoop.leave, Machine.dialogue, List.append_assoc]

theorem ends_endOfInput {patience : Option Nat} (hpatience : patience ≠ some 0) :
    Ends prompt ⟨⟨[], machine, events, none⟩, patience⟩
      (machine.dialogue prompt [.endOfInput]) := by
  apply ends_of_turn
  rw [turn, if_neg hpatience]
  simp only [LineLoop.turn, Text.takeLine, Machine.dialogue, List.append_assoc]

-- A read that brings a line costs one turn and some of the patience.
theorem ends_line {patience : Option Nat} (hpatience : patience ≠ some 0)
    {input line rest : List Char} {reads : List Read} (hline : line ≠ [])
    (htake : Text.takeLine input = (line, rest))
    (hrest : ∀ machine events, Ends prompt ⟨⟨rest, machine, events, none⟩, patience.map (· - 1)⟩
      (machine.dialogue prompt reads)) :
    Ends prompt ⟨⟨input, machine, events, none⟩, patience⟩
      (machine.dialogue prompt (.line (String.ofList line) :: reads)) := by
  obtain ⟨turns, hturns⟩ := hrest (machine.answer (String.ofList line)).machine
    (events ++ Console.promptEvents prompt ++ (machine.answer (String.ofList line)).events)
  refine ⟨turns + 1, fun more => ?_⟩
  obtain ⟨hmachine, hevents, hcode⟩ := hturns more
  rw [Nat.add_right_comm, Function.iterate_succ_apply, turn, if_neg hpatience,
    LineLoop.turn_line prompt machine events hline htake]
  refine ⟨hmachine, hevents.trans ?_, hcode⟩
  simp only [Machine.dialogue, Run.cons, List.append_assoc]

-- The patience or the input comes to an end, whichever is first.
theorem ends_dialogue (patience : Option Nat) (input : List Char) :
    Ends prompt ⟨⟨input, machine, events, none⟩, patience⟩
      (machine.dialogue prompt
        (Console.reads patience ((Text.linesOf input).map String.ofList))) := by
  induction hlines : Text.linesOf input generalizing machine events patience input with
  | nil =>
      obtain rfl := Text.linesOf_eq_nil_iff.mp hlines
      by_cases hpatience : patience = some 0
      · rw [hpatience, Console.reads_interrupted]
        exact ends_interrupted prompt machine events []
      · rw [List.map_nil, Console.reads_endOfInput hpatience]
        exact ends_endOfInput prompt machine events hpatience
  | cons line lines ih =>
      by_cases hpatience : patience = some 0
      · rw [hpatience, Console.reads_interrupted]
        exact ends_interrupted prompt machine events input
      · obtain ⟨hline, rest, htake, hrest⟩ := Text.exists_takeLine hlines
        rw [List.map_cons, Console.reads_line hpatience]
        exact ends_line prompt machine events hpatience hline htake
          fun machine events => ih machine events _ rest hrest

end InterruptedLoop

-- What a line writes to the output.
def Reply.output (reply : Reply) : String := Console.outputText (Console.shown reply.events)

namespace Machine

variable [Power]

-- The replies to some lines, one after the other.
def replies (machine : Machine) : List String → List Reply
  | [] => []
  | line :: rest =>
    let first := machine.answer line
    first :: first.machine.replies rest

variable (prompt : String) (machine : Machine)

-- To be interrupted is to come to the end of the input early.
theorem dialogue_interrupted (count : Nat) (lines : List String) :
    machine.dialogue prompt (Console.reads (some count) lines) =
      machine.dialogue prompt (Console.reads none (lines.take count)) := by
  induction lines generalizing machine count with
  | nil => cases count <;> rfl
  | cons line rest ih =>
      cases count with
      | zero => rfl
      | succ count =>
          rw [List.take_succ_cons, Console.reads, Console.reads, dialogue, dialogue, ih]

theorem machine_dialogue (lines : List String) :
    (machine.dialogue prompt (Console.reads none lines)).machine =
      (machine.answerAll lines).machine := by
  induction lines generalizing machine with
  | nil => rfl
  | cons line rest ih => exact ih (machine.answer line).machine

theorem events_dialogue_nil :
    (machine.dialogue prompt (Console.reads none [])).events =
      Console.promptEvents prompt ++ Console.farewellEvents prompt := rfl

theorem events_dialogue_cons (line : String) (rest : List String) :
    (machine.dialogue prompt (Console.reads none (line :: rest))).events =
      Console.promptEvents prompt ++ (machine.answer line).events ++
        ((machine.answer line).machine.dialogue prompt (Console.reads none rest)).events := rfl

theorem errorText_dialogue (time : String) (level : Level) (lines : List String) :
    Console.errorText time
        ((machine.dialogue prompt (Console.reads none lines)).events.filter (·.visibleAt level)) =
      Console.errorText time ((machine.answerAll lines).events.filter (·.visibleAt level)) := by
  induction lines generalizing machine with
  | nil =>
      rw [events_dialogue_nil, List.filter_append, Console.errorText_append,
        Console.errorText_promptEvents, Console.errorText_farewellEvents]
      rfl
  | cons line rest ih =>
      rw [events_dialogue_cons, List.filter_append, List.filter_append, Console.errorText_append,
        Console.errorText_append, Console.errorText_promptEvents, ih, String.empty_append,
        ← Console.errorText_append, ← List.filter_append]
      rfl

theorem outputText_dialogue (lines : List String) :
    Console.outputText
        (Console.shown (machine.dialogue prompt (Console.reads none lines)).events) =
      String.join ((machine.replies lines).map fun reply => prompt ++ reply.output) ++
        (prompt ++ Console.outputText (Console.shown (Console.farewellEvents prompt))) := by
  induction lines generalizing machine with
  | nil =>
      rw [events_dialogue_nil, Console.shown_append, Console.outputText_append,
        Console.outputText_promptEvents, replies, List.map_nil, String.join_nil,
        String.empty_append]
  | cons line rest ih =>
      rw [events_dialogue_cons, Console.shown_append, Console.shown_append,
        Console.outputText_append, Console.outputText_append, Console.outputText_promptEvents, ih,
        replies, List.map_cons, String.join_cons]
      simp only [String.append_assoc]
      rfl

end Machine

-- A prompt is written in front of every line's own output and once more at the end, before the
-- farewell. It makes no difference to the errors, the log or the machine. An interrupt, with a
-- prompt or without one, is as good as the end of the input behind the lines that were read. All
-- these loops come to an end with exit code 0.
theorem dialogue_framed [Power] (machine : Machine) (text : String) :
    (∀ prompt : String, prompt ≠ "" →
      let plain := machine.dialogue "" (Console.reads none (Text.lines text))
      let prompted := machine.dialogue prompt (Console.reads none (Text.lines text))
      let replies := machine.replies (Text.lines text)
      InterruptedLoop.Ends "" (.start machine text none) plain ∧
      InterruptedLoop.Ends prompt (.start machine text none) prompted ∧
      Console.outputText (Console.shown plain.events) = String.join (replies.map (·.output)) ∧
      Console.outputText (Console.shown prompted.events) =
        String.join (replies.map fun reply => prompt ++ reply.output) ++
          (prompt ++ (Console.farewell ++ "\n")) ∧
      (∀ time level, Console.errorText time (prompted.events.filter (·.visibleAt level)) =
        Console.errorText time (plain.events.filter (·.visibleAt level))) ∧
      prompted.machine = plain.machine) ∧
    ∀ (prompt : String) (count : Nat),
      let cut := Text.firstLines count text
      let run := machine.dialogue prompt (Console.reads none (Text.lines cut))
      Text.lines cut = (Text.lines text).take count ∧
      InterruptedLoop.Ends prompt (.start machine text (some count)) run ∧
      InterruptedLoop.Ends prompt (.start machine cut none) run := by
  constructor
  · intro prompt hprompt plain prompted replies
    have hplain := machine.outputText_dialogue "" (Text.lines text)
    have hprompted := machine.outputText_dialogue prompt (Text.lines text)
    rw [Console.outputText_farewellEvents hprompt] at hprompted
    simp only [String.empty_append] at hplain
    refine ⟨InterruptedLoop.ends_dialogue "" machine [] none text.toList,
      InterruptedLoop.ends_dialogue prompt machine [] none text.toList, ?_, hprompted, ?_, ?_⟩
    · exact hplain.trans String.append_empty
    · intro time level
      rw [machine.errorText_dialogue prompt, machine.errorText_dialogue ""]
    · rw [machine.machine_dialogue prompt, machine.machine_dialogue ""]
  · intro prompt count cut run
    have hcut : Text.lines cut = (Text.lines text).take count := Text.lines_firstLines count text
    refine ⟨hcut, ?_, InterruptedLoop.ends_dialogue prompt machine [] none cut.toList⟩
    have hrun : machine.dialogue prompt (Console.reads (some count) (Text.lines text)) = run := by
      rw [Machine.dialogue_interrupted, ← hcut]
    rw [← hrun]
    exact InterruptedLoop.ends_dialogue prompt machine [] (some count) text.toList

-- The last line has no line feed. The interrupt comes behind the second line.
theorem dialogue_framed_unterminated :
    let text := "A 5 =\nA 2 *\n\nbad"
    let run := Machine.initial.dialogue "> " (Console.reads none (Text.lines text))
    let cut := "A 5 =\nA 2 *\n"
    "> " ≠ "" ∧ Console.outputText (Console.shown run.events) = "> > [10]\n> > > \nBye!\n" ∧
      InterruptedLoop.Ends "> " (.start .initial text (some 2))
        (Machine.initial.dialogue "> " (Console.reads none (Text.lines cut))) := by
  intro text run cut
  have hprompt : "> " ≠ "" := by decide
  obtain ⟨hframed, hinterrupted⟩ := dialogue_framed .initial text
  obtain ⟨-, -, -, houtput, -, -⟩ := hframed "> " hprompt
  obtain ⟨-, hends, -⟩ := hinterrupted "> " 2
  have hcut : Text.firstLines 2 text = cut := by decide +kernel
  refine ⟨hprompt, houtput.trans ?_, ?_⟩
  · decide +kernel
  · rwa [hcut] at hends

end PostfixCalc
