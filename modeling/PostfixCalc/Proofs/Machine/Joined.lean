import PostfixCalc.Proofs.Machine.Run
import PostfixCalc.Proofs.Token

namespace PostfixCalc

namespace Machine

-- A line does what its words do, however they are spaced.
theorem tokens_spaced {words : List String} {line : String}
    (hwords : ∀ word ∈ words, Text.IsWord word.toList) (hline : Text.Spaced words line.toList) :
    tokens line = words.map Token.read := by
  rw [tokens, Text.words_spaced words line hwords hline]

variable [Power]

-- The outcome of a line is decided by where its tokens lead.
theorem result_congr {machine other : Machine} {line text : String}
    (hfailure : (machine.reset.run (tokens line)).failure =
      (other.reset.run (tokens text)).failure)
    (hmachine : (machine.reset.run (tokens line)).machine =
      (other.reset.run (tokens text)).machine) :
    (machine.evaluate line).result = (other.evaluate text).result :=
  result_congr_of_top hfailure (congrArg top hmachine)

-- A failure is final: the tokens behind it are never reached.
theorem run_append_failed {machine : Machine} {first : List Token} {error : EvalError}
    (second : List Token) (h : (machine.run first).failure = some error) :
    machine.run (first ++ second) = machine.run first := by
  rw [run_append, Reaction.andThen_failed _ h]

-- Tokens that leave nothing on the stack hand on the bindings and nothing else, as a line does.
theorem run_append_cleared {machine : Machine} {first : List Token} (second : List Token)
    (hdone : (machine.run first).failure = none)
    (hcleared : (machine.run first).machine.stack = []) :
    (machine.run (first ++ second)).failure =
        ((machine.run first).machine.reset.run second).failure ∧
      (machine.run (first ++ second)).machine =
        ((machine.run first).machine.reset.run second).machine := by
  have hreset : (machine.run first).machine.reset = (machine.run first).machine := by
    rw [reset, ← hcleared]
  rw [hreset, run_append]
  exact ⟨Reaction.failure_andThen _ hdone, Reaction.machine_andThen _ hdone⟩

end Machine

-- Two lists of words on one line. If the first list fails, the line fails as the first list does,
-- whatever comes behind it. If the first list goes through and clears the stack, the line does what
-- the two lists do on a line each: the top of the stack, which is read at the end of either line,
-- is missing at the end of the first.
theorem evaluate_joined [Power] (machine : Machine) (first second : List String)
    (one two joined : String)
    (hwords : ∀ word ∈ first ++ second, Text.IsWord word.toList)
    (hone : Text.Spaced first one.toList) (htwo : Text.Spaced second two.toList)
    (hjoined : Text.Spaced (first ++ second) joined.toList) :
    let before := machine.reset.run (first.map Token.read)
    (∀ error, before.failure = some error →
      (machine.evaluate one).result = .error error ∧
      (machine.evaluate joined).result = .error error ∧
      (machine.evaluate joined).machine = (machine.evaluate one).machine) ∧
    (before.failure = none → before.machine.stack = [] →
      let later := (machine.evaluate one).machine.evaluate two
      (machine.evaluate one).result = .ok none ∧
      (machine.evaluate joined).result = later.result ∧
      (machine.evaluate joined).machine = later.machine) := by
  intro before
  have hfirst := Machine.tokens_spaced (fun word hword => hwords word (by simp [hword])) hone
  have hsecond := Machine.tokens_spaced (fun word hword => hwords word (by simp [hword])) htwo
  have hboth : Machine.tokens joined = first.map Token.read ++ second.map Token.read := by
    rw [Machine.tokens_spaced hwords hjoined, List.map_append]
  have hmachine : (machine.evaluate one).machine = before.machine := by
    change (machine.reset.run (Machine.tokens one)).machine = _
    rw [hfirst]
  constructor
  · intro error hfailed
    have hrun := Machine.run_append_failed (second.map Token.read) hfailed
    refine ⟨?_, ?_, ?_⟩
    · apply Machine.result_of_failure
      rw [hfirst]
      exact hfailed
    · apply Machine.result_of_failure
      rw [hboth, hrun]
      exact hfailed
    · change (machine.reset.run (Machine.tokens joined)).machine = _
      rw [hmachine, hboth, hrun]
  · intro hdone hcleared later
    obtain ⟨hfailure, hend⟩ := Machine.run_append_cleared (second.map Token.read) hdone hcleared
    rw [← hboth, ← hsecond, ← hmachine] at hfailure hend
    refine ⟨?_, Machine.result_congr hfailure hend, hend⟩
    have hbefore : machine.reset.run (Machine.tokens one) = before := by rw [hfirst]
    rw [Machine.result_of_done (by rw [hbefore, hdone]), hbefore, Machine.top, hcleared]

-- The first line assigns to A and clears the stack; the second one fails after a token of its own,
-- on one line as on two.
theorem evaluate_joined_assignment :
    let first := ["A", "2", "="]
    let second := ["A", "0", "/"]
    let joined := "A  2 =\tA 0 /\n"
    Text.Spaced (first ++ second) joined.toList ∧
      (Machine.initial.evaluate joined).result = .error .divisionByZero ∧
      (Machine.initial.evaluate joined).machine =
        ((Machine.initial.evaluate "A 2 =").machine.evaluate " A 0 /").machine := by
  intro first second joined
  have hone : Text.Spaced first "A 2 =".toList :=
    .cons [] [' '] _ "A" _ (by decide) (by decide) (by simp) <|
    .cons [] [' '] _ "2" _ (by decide) (by decide) (by simp) <|
    .cons [] [] _ "=" _ (by decide) (by decide) (by simp) <|
    .nil [] (by decide)
  have htwo : Text.Spaced second " A 0 /".toList :=
    .cons [' '] [' '] _ "A" _ (by decide) (by decide) (by simp) <|
    .cons [] [' '] _ "0" _ (by decide) (by decide) (by simp) <|
    .cons [] [] _ "/" _ (by decide) (by decide) (by simp) <|
    .nil [] (by decide)
  have hjoined : Text.Spaced ["A", "2", "=", "A", "0", "/"] "A  2 =\tA 0 /\n".toList :=
    .cons [] [' ', ' '] _ "A" _ (by decide) (by decide) (by simp) <|
    .cons [] [' '] _ "2" _ (by decide) (by decide) (by simp) <|
    .cons [] ['\t'] _ "=" _ (by decide) (by decide) (by simp) <|
    .cons [] [' '] _ "A" _ (by decide) (by decide) (by simp) <|
    .cons [] [' '] _ "0" _ (by decide) (by decide) (by simp) <|
    .cons [] ['\n'] _ "/" _ (by decide) (by decide) (by simp) <|
    .nil [] (by decide)
  have hends := (evaluate_joined .initial first second _ _ joined (by decide) hone htwo hjoined).2
    (by decide +kernel) (by decide +kernel)
  have hresult : ((Machine.initial.evaluate "A 2 =").machine.evaluate " A 0 /").result =
      .error .divisionByZero := by decide +kernel
  exact ⟨hjoined, hends.2.1.trans hresult, hends.2.2⟩

end PostfixCalc
