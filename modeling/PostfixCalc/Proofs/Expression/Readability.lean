import PostfixCalc.Shape
import PostfixCalc.Proofs.Expression.Meaning
import PostfixCalc.Proofs.Expression.Reading

namespace PostfixCalc

namespace Phrase

-- The shape of the cell that a phrase leaves, if it leaves one.
def shape? : Phrase → Option Shape
  | .expression (.letter letter) => some (.reference letter)
  | .expression _ => some .number
  | .assignment _ => none

def shapes (read : List Phrase) : List Shape := read.filterMap shape?

theorem shapes_operand (operand : Operand) (before : List Phrase) :
    ∃ shape, shapes (operand.phrases ++ before) = shape :: shapes before := by
  match operand with
  | .plain (.number numeral) => exact ⟨.number, rfl⟩
  | .plain (.letter letter) => exact ⟨.reference letter, rfl⟩
  | .plain (.operation left right op) => exact ⟨.number, rfl⟩
  | .followed inner tree => exact shapes_operand inner before

theorem shapes_target (target : Target) (before : List Phrase) :
    ∃ letter, shapes (target.phrases ++ before) = .reference letter :: shapes before := by
  cases target with
  | letter letter => exact ⟨letter, rfl⟩
  | followed inner tree => exact shapes_target inner before

theorem shapes_of_lastOperand_eq_none {read : List Phrase} (h : lastOperand read = none) :
    shapes read = [] := by
  induction read with
  | nil => rfl
  | cons phrase rest ih =>
      cases phrase with
      | expression tree => exact absurd h (by simp [lastOperand])
      | assignment tree => exact ih (Option.map_eq_none_iff.mp h)

theorem shapes_of_lastTarget_eq_none {read : List Phrase} (h : lastTarget read = none) :
    shapes read = [] ∨ ∃ rest, shapes read = .number :: rest := by
  induction read with
  | nil => exact .inl rfl
  | cons phrase rest ih =>
      match phrase with
      | .expression (.letter letter) => exact absurd h (by simp [lastTarget])
      | .expression (.number numeral) => exact .inr ⟨shapes rest, rfl⟩
      | .expression (.operation left right op) => exact .inr ⟨shapes rest, rfl⟩
      | .assignment tree => exact ih (Option.map_eq_none_iff.mp h)

theorem step_operator_shapes (read : List Phrase) (op : Operator) :
    (Shape.step (shapes read) (.operator op)).toOption =
      (readToken read (.operator op)).map shapes := by
  simp only [readToken]
  cases hright : lastOperand read with
  | none =>
      rw [shapes_of_lastOperand_eq_none hright]
      rfl
  | some pair =>
      obtain ⟨right, rest⟩ := pair
      obtain ⟨top, htop⟩ := shapes_operand right rest
      rw [eq_of_lastOperand hright, htop, Option.bind_some]
      cases hleft : lastOperand rest with
      | none =>
          rw [shapes_of_lastOperand_eq_none hleft]
          rfl
      | some pair =>
          obtain ⟨left, before⟩ := pair
          obtain ⟨below, hbelow⟩ := shapes_operand left before
          rw [eq_of_lastOperand hleft, hbelow]
          rfl

theorem step_assign_shapes (read : List Phrase) :
    (Shape.step (shapes read) .assign).toOption = (readToken read .assign).map shapes := by
  simp only [readToken]
  cases hsource : lastOperand read with
  | none =>
      rw [shapes_of_lastOperand_eq_none hsource]
      rfl
  | some pair =>
      obtain ⟨source, rest⟩ := pair
      obtain ⟨top, htop⟩ := shapes_operand source rest
      rw [eq_of_lastOperand hsource, htop, Option.bind_some]
      cases htarget : lastTarget rest with
      | none =>
          rcases shapes_of_lastTarget_eq_none htarget with hnil | ⟨others, hnumber⟩
          · rw [hnil]
            rfl
          · rw [hnumber]
            rfl
      | some pair =>
          obtain ⟨target, before⟩ := pair
          obtain ⟨letter, hletter⟩ := shapes_target target before
          rw [eq_of_lastTarget htarget, hletter]
          rfl

-- Phrases can be read on by a token if and only if their shapes can.
theorem step_shapes (read : List Phrase) (token : Token) :
    (Shape.step (shapes read) token).toOption = (readToken read token).map shapes := by
  cases token with
  | blank => rfl
  | number numeral => rfl
  | operator op => exact step_operator_shapes read op
  | assign => exact step_assign_shapes read
  | «variable» letter => rfl
  | unknown text => rfl

theorem check_shapes (read : List Phrase) (place : Nat) (tokens : List Token) :
    (Shape.check (shapes read) place tokens).toOption = (readTokens read tokens).map shapes := by
  induction tokens generalizing read place with
  | nil => rfl
  | cons token rest ih =>
      have hstep := step_shapes read token
      rw [Shape.check, readTokens]
      cases hverdict : Shape.step (shapes read) token with
      | error error =>
          rw [hverdict] at hstep
          have hread : readToken read token = none := Option.map_eq_none_iff.mp hstep.symm
          rw [hread]
          rfl
      | ok final =>
          rw [hverdict] at hstep
          obtain ⟨next, hread, rfl⟩ := Option.map_eq_some_iff.mp hstep.symm
          rw [hread]
          exact ih next (place + 1)

theorem check_eq_ok_iff {tokens : List Token} :
    (∃ final, Shape.check [] 0 tokens = .ok final) ↔ ∃ phrases, Prints phrases tokens := by
  have hcheck := check_shapes [] 0 tokens
  change (Shape.check [] 0 tokens).toOption = _ at hcheck
  constructor
  · rintro ⟨final, hfinal⟩
    rw [hfinal] at hcheck
    obtain ⟨read, hread, -⟩ := Option.map_eq_some_iff.mp hcheck.symm
    exact ⟨read.reverse, prints_iff.mpr (by rwa [List.reverse_reverse])⟩
  · rintro ⟨phrases, hprints⟩
    rw [prints_iff.mp hprints] at hcheck
    cases hverdict : Shape.check [] 0 tokens with
    | ok final => exact ⟨final, rfl⟩
    | error fault => exact absurd hcheck (by simp [hverdict, Except.toOption])

variable [Power]

-- What phrases leave on the stack when nothing goes wrong, the lowest cell first: one cell for every
-- expression, which is what the expression comes to when its turn comes, and none for an assignment.
inductive Leaves : Bindings → List Phrase → List Cell → Bindings → Prop where
  | nil (bindings : Bindings) : Leaves bindings [] [] bindings
  | expression (tree : Expression) (value : Deferred) (rest : List Phrase) (cells : List Cell)
      (bindings changed later : Bindings) (hrun : tree.run bindings = (.ok value, changed))
      (hrest : Leaves changed rest cells later) :
      Leaves bindings (.expression tree :: rest) (value.cell :: cells) later
  | assignment (tree : Assignment) (rest : List Phrase) (cells : List Cell)
      (bindings changed later : Bindings) (hrun : tree.run bindings = (.ok (), changed))
      (hrest : Leaves changed rest cells later) :
      Leaves bindings (.assignment tree :: rest) cells later

theorem exists_leaves {phrases : List Phrase} {left final : List Deferred}
    {bindings later : Bindings} (h : runAll left phrases bindings = (.ok final, later)) :
    ∃ cells, Leaves bindings phrases cells later ∧
      final.map Deferred.cell = cells.reverse ++ left.map Deferred.cell := by
  induction phrases generalizing left bindings with
  | nil =>
      obtain ⟨hfinal, rfl⟩ := Prod.mk.inj h
      obtain rfl := Except.ok.inj hfinal
      exact ⟨[], .nil _, rfl⟩
  | cons phrase rest ih =>
      cases phrase with
      | expression tree =>
          simp only [runAll, Phrase.run, Effect.andThen] at h
          cases hrun : tree.run bindings with
          | mk outcome changed =>
              cases outcome with
              | error error => exact absurd h (by simp [hrun])
              | ok value =>
                  rw [hrun] at h
                  obtain ⟨cells, hleaves, hfinal⟩ := ih h
                  refine ⟨value.cell :: cells, .expression _ _ _ _ _ _ _ hrun hleaves, ?_⟩
                  simp [hfinal]
      | assignment tree =>
          simp only [runAll, Phrase.run, Effect.andThen] at h
          cases hrun : tree.run bindings with
          | mk outcome changed =>
              cases outcome with
              | error error => exact absurd h (by simp [hrun])
              | ok value =>
                  rw [hrun] at h
                  obtain ⟨cells, hleaves, hfinal⟩ := ih h
                  exact ⟨cells, .assignment _ _ _ _ _ _ hrun hleaves, hfinal⟩

end Phrase

theorem Machine.run_filter_blank [Power] (machine : Machine) (tokens : List Token) :
    machine.run (tokens.filter (· ≠ .blank)) = machine.run tokens := by
  induction tokens generalizing machine with
  | nil => rfl
  | cons token rest ih =>
      by_cases hblank : token = .blank
      · subst hblank
        simpa [run, step] using ih machine
      · simp only [ne_eq, hblank, not_false_eq_true, decide_true, List.filter_cons_of_pos, run_cons]
        congr 1
        funext next
        exact ih next

theorem Machine.leaves_of_prints [Power] {machine : Machine} {phrases : List Phrase}
    {tokens : List Token} (hprints : Phrase.Prints phrases tokens) (hdone : (machine.reset.run tokens).failure = none) :
    Phrase.Leaves machine.bindings phrases (machine.reset.run tokens).machine.stack.reverse
      (machine.reset.run tokens).machine.bindings := by
  have hrun := run_phrases phrases [] machine.bindings
  rw [hprints, run_filter_blank] at hrun
  change (machine.reset.run tokens).Realizes _ _ at hrun
  cases houtcome : Phrase.runAll [] phrases machine.bindings with
  | mk outcome later =>
      rw [houtcome] at hrun
      cases outcome with
      | error error => exact absurd hdone (by simp [hrun.1])
      | ok final =>
          obtain ⟨cells, hleaves, hfinal⟩ := Phrase.exists_leaves houtcome
          rw [hrun.2, hfinal, List.map_nil, List.append_nil, List.reverse_reverse]
          exact hleaves

-- Every list of tokens can be read in one way at most, and it can be read if and only if the shapes
-- are right. What is left on the stack then belongs, cell by cell, to the expressions that were
-- read.
theorem uniquely_readable [Power] (tokens : List Token) :
    ((∃ shapes, Shape.check [] 0 tokens = .ok shapes) ↔
      ∃ phrases, Phrase.Prints phrases tokens) ∧
    (∀ phrases others : List Phrase, Phrase.Prints phrases tokens →
      Phrase.Prints others tokens → phrases = others) ∧
    ∀ (phrases : List Phrase) (machine : Machine), Phrase.Prints phrases tokens →
      (machine.reset.run tokens).failure = none →
      Phrase.Leaves machine.bindings phrases (machine.reset.run tokens).machine.stack.reverse
        (machine.reset.run tokens).machine.bindings := by
  refine ⟨Phrase.check_eq_ok_iff, ?_, fun phrases machine => Machine.leaves_of_prints⟩
  intro phrases others hphrases hothers
  have hsame : some phrases.reverse = some others.reverse :=
    (Phrase.prints_iff.mp hphrases).symm.trans (Phrase.prints_iff.mp hothers)
  exact List.reverse_inj.mp (Option.some.inj hsame)

-- Assignments stand between the operands, inside a target and after the last operator.
theorem uniquely_readable_between :
    let two : Numeral := ⟨false, [2], [], by simp⟩
    let three : Numeral := ⟨false, [3], [], by simp⟩
    let tokens := Machine.tokens "A B 3 = 2 + C B 2 = B = B"
    let phrases : List Phrase :=
      [.expression (.operation
          (.followed (.plain (.letter ⟨0⟩)) (.assign (.letter ⟨1⟩) (.plain (.number three))))
          (.plain (.number two)) .add),
        .assignment (.assign
          (.followed (.letter ⟨2⟩) (.assign (.letter ⟨1⟩) (.plain (.number two))))
          (.plain (.letter ⟨1⟩))),
        .expression (.letter ⟨1⟩)]
    let machine : Machine := ⟨[], Bindings.empty.set ⟨0⟩ (Binary64.ofInt 1)⟩
    (∃ shapes, Shape.check [] 0 tokens = .ok shapes) ∧
      (∀ others, Phrase.Prints others tokens → others = phrases) ∧
      (machine.reset.run tokens).failure = none ∧
      Phrase.Leaves machine.bindings phrases [.number (Binary64.ofInt 3), .reference "B"]
        (machine.reset.run tokens).machine.bindings := by
  intro two three tokens phrases machine
  have hprints : Phrase.Prints phrases tokens := by
    unfold Phrase.Prints
    decide +kernel
  have hdone : (machine.reset.run tokens).failure = none := by decide +kernel
  have hstack : (machine.reset.run tokens).machine.stack =
      [.reference "B", .number (Binary64.ofInt 3)] := by decide +kernel
  obtain ⟨hcheck, hunique, hleaves⟩ := uniquely_readable tokens
  have hcells := hleaves phrases machine hprints hdone
  rw [hstack] at hcells
  exact ⟨hcheck.mpr ⟨phrases, hprints⟩, fun others h => hunique others phrases h hprints, hdone,
    hcells⟩

end PostfixCalc
