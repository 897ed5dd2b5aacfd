import PostfixCalc.Expression.Meaning
import PostfixCalc.Proofs.Bindings
import PostfixCalc.Proofs.Machine.Run
import PostfixCalc.Proofs.Token

namespace PostfixCalc

-- The cell that stands for what an expression comes to.
def Deferred.cell : Deferred → Cell
  | .number value => .number value
  | .letter unread => .reference unread.name

theorem Deferred.read_eq (deferred : Deferred) (stack : List Cell) (bindings : Bindings) :
    deferred.read bindings = (Machine.resolve ⟨stack, bindings⟩ deferred.cell, bindings) := by
  cases deferred with
  | number value => rfl
  | letter unread =>
      simp only [read, cell, Machine.resolve, Bindings.lookup_name]
      cases bindings.get? unread <;> rfl

-- A reaction that does to the bindings what an effect does. If the effect has a value, the stack
-- afterwards is the one that belongs to the value.
def Reaction.Realizes {α : Type} (reaction : Reaction) (outcome : Except EvalError α × Bindings)
    (stack : α → List Cell) : Prop :=
  match outcome with
  | (.ok value, bindings) => reaction.failure = none ∧ reaction.machine = ⟨stack value, bindings⟩
  | (.error error, bindings) =>
    reaction.failure = some error ∧ reaction.machine.bindings = bindings

theorem Reaction.Realizes.andThen {α β : Type} {first : Reaction} {next : Machine → Reaction}
    {effect : Effect α} {later : α → Effect β} {bindings : Bindings}
    {between : α → List Cell} {after : β → List Cell}
    (hfirst : first.Realizes (effect bindings) between)
    (hnext : ∀ value changed, (next ⟨between value, changed⟩).Realizes (later value changed) after) :
    (first.andThen next).Realizes (effect.andThen later bindings) after := by
  unfold Effect.andThen
  generalize effect bindings = outcome at hfirst ⊢
  match outcome, hfirst with
  | (.ok value, changed), ⟨hdone, hmachine⟩ =>
      have hlater := hnext value changed
      rw [← hmachine] at hlater
      simp only [Realizes] at hlater ⊢
      rw [failure_andThen next hdone, machine_andThen next hdone]
      exact hlater
  | (.error error, changed), ⟨hfailed, hbindings⟩ =>
      rw [andThen_failed next hfailed]
      exact ⟨hfailed, hbindings⟩

theorem Reaction.Realizes.weaken {α β : Type} {reaction : Reaction} {effect : Effect α}
    {form : α → β} {bindings : Bindings} {stack : α → List Cell} {after : β → List Cell}
    (h : reaction.Realizes (effect bindings) stack) (hafter : ∀ value, after (form value) = stack value) :
    reaction.Realizes (effect.andThen (fun value => Effect.pure (form value)) bindings) after := by
  unfold Effect.andThen
  generalize effect bindings = outcome at h ⊢
  match outcome, h with
  | (.ok value, changed), ⟨hdone, hmachine⟩ =>
      exact ⟨hdone, by rw [hafter, hmachine]⟩
  | (.error error, changed), hfailed => exact hfailed

namespace Machine

theorem store_realizes (letter : Letter) (source : Deferred) (stack : List Cell)
    (bindings : Bindings) :
    (store ⟨source.cell :: .reference letter.name :: stack, bindings⟩).Realizes
      (source.read.andThen (Effect.write letter) bindings) (fun _ => stack) := by
  simp only [store, target?, Letter.ofName?_name, Effect.andThen]
  rw [source.read_eq (source.cell :: .reference letter.name :: stack) bindings]
  cases resolve ⟨source.cell :: .reference letter.name :: stack, bindings⟩ source.cell with
  | error error => exact ⟨rfl, rfl⟩
  | ok value => exact ⟨rfl, rfl⟩

variable [Power]

theorem operate_realizes (op : Operator) (left right : Deferred) (stack : List Cell)
    (bindings : Bindings) :
    (operate ⟨right.cell :: left.cell :: stack, bindings⟩ op).Realizes
      (op.combine left right bindings) (fun value => value.cell :: stack) := by
  simp only [operate, Operator.combine, Effect.andThen]
  rw [right.read_eq (right.cell :: left.cell :: stack) bindings]
  cases resolve ⟨right.cell :: left.cell :: stack, bindings⟩ right.cell with
  | error error => exact ⟨rfl, rfl⟩
  | ok rhs =>
      simp only
      rw [left.read_eq (right.cell :: left.cell :: stack) bindings]
      cases resolve ⟨right.cell :: left.cell :: stack, bindings⟩ left.cell with
      | error error => exact ⟨rfl, rfl⟩
      | ok lhs =>
          simp only
          cases op.compute? lhs rhs with
          | none => exact ⟨rfl, rfl⟩
          | some value => exact ⟨rfl, rfl⟩

-- The tokens of a tree do on any stack what the tree means: an expression leaves one cell more, an
-- assignment none, and a target its unread letter.
mutual

theorem run_expression (tree : Expression) (stack : List Cell) (bindings : Bindings) :
    (run ⟨stack, bindings⟩ tree.tokens).Realizes (tree.run bindings)
      (fun value => value.cell :: stack) := by
  match tree with
  | .number numeral => exact ⟨rfl, rfl⟩
  | .letter letter => exact ⟨rfl, rfl⟩
  | .operation left right op =>
      rw [Expression.tokens, Expression.run, run_append, run_append, Reaction.andThen_assoc]
      apply (run_operand left stack bindings).andThen
      intro lhs afterLeft
      apply (run_operand right (lhs.cell :: stack) afterLeft).andThen
      intro rhs afterRight
      rw [run_singleton]
      exact operate_realizes op lhs rhs stack afterRight

theorem run_operand (tree : Operand) (stack : List Cell) (bindings : Bindings) :
    (run ⟨stack, bindings⟩ tree.tokens).Realizes (tree.run bindings)
      (fun value => value.cell :: stack) := by
  match tree with
  | .plain expression => exact run_expression expression stack bindings
  | .followed operand assignment =>
      rw [Operand.tokens, Operand.run, run_append]
      apply (run_operand operand stack bindings).andThen
      intro value changed
      exact (run_assignment assignment (value.cell :: stack) changed).weaken (fun _ => rfl)

theorem run_assignment (tree : Assignment) (stack : List Cell) (bindings : Bindings) :
    (run ⟨stack, bindings⟩ tree.tokens).Realizes (tree.run bindings) (fun _ => stack) := by
  match tree with
  | .assign target source =>
      rw [Assignment.tokens, Assignment.run, run_append, run_append, Reaction.andThen_assoc]
      apply (run_target target stack bindings).andThen
      intro letter afterTarget
      apply (run_operand source (.reference letter.name :: stack) afterTarget).andThen
      intro value afterSource
      rw [run_singleton]
      exact store_realizes letter value stack afterSource

theorem run_target (tree : Target) (stack : List Cell) (bindings : Bindings) :
    (run ⟨stack, bindings⟩ tree.tokens).Realizes (tree.run bindings)
      (fun letter => .reference letter.name :: stack) := by
  match tree with
  | .letter letter => exact ⟨rfl, rfl⟩
  | .followed target assignment =>
      rw [Target.tokens, Target.run, run_append]
      apply (run_target target stack bindings).andThen
      intro letter changed
      exact (run_assignment assignment (.reference letter.name :: stack) changed).weaken
        (fun _ => rfl)

end

theorem run_phrase (phrase : Phrase) (left : List Deferred) (bindings : Bindings) :
    (run ⟨left.map Deferred.cell, bindings⟩ phrase.tokens).Realizes (phrase.run left bindings)
      (List.map Deferred.cell) := by
  cases phrase with
  | expression tree =>
      exact (run_expression tree (left.map Deferred.cell) bindings).weaken (fun _ => rfl)
  | assignment tree =>
      exact (run_assignment tree (left.map Deferred.cell) bindings).weaken (fun _ => rfl)

theorem run_phrases (phrases : List Phrase) (left : List Deferred) (bindings : Bindings) :
    (run ⟨left.map Deferred.cell, bindings⟩ (phrases.flatMap Phrase.tokens)).Realizes
      (Phrase.runAll left phrases bindings) (List.map Deferred.cell) := by
  induction phrases generalizing left bindings with
  | nil => exact ⟨rfl, rfl⟩
  | cons phrase rest ih =>
      rw [List.flatMap_cons, run_append, Phrase.runAll]
      apply (run_phrase phrase left bindings).andThen
      intro next changed
      exact ih next changed

end Machine

-- A line that writes out some trees, one after the other, with any blanks between the tokens.
def Phrase.Writes (phrases : List Phrase) (line : String) : Prop :=
  Text.Spaced ((phrases.flatMap Phrase.tokens).map Token.text) line.toList

mutual

theorem Expression.isKnown_tokens (tree : Expression) : ∀ token ∈ tree.tokens, token.IsKnown := by
  match tree with
  | .number numeral => simp [Expression.tokens, Token.IsKnown]
  | .letter letter => simp [Expression.tokens, Token.IsKnown]
  | .operation left right op =>
      intro token ht
      simp only [Expression.tokens, List.mem_append, List.mem_singleton] at ht
      rcases ht with (ht | ht) | rfl
      · exact left.isKnown_tokens token ht
      · exact right.isKnown_tokens token ht
      · trivial

theorem Operand.isKnown_tokens (tree : Operand) : ∀ token ∈ tree.tokens, token.IsKnown := by
  match tree with
  | .plain expression => exact expression.isKnown_tokens
  | .followed operand assignment =>
      intro token ht
      rcases List.mem_append.mp ht with ht | ht
      · exact operand.isKnown_tokens token ht
      · exact assignment.isKnown_tokens token ht

theorem Assignment.isKnown_tokens (tree : Assignment) : ∀ token ∈ tree.tokens, token.IsKnown := by
  match tree with
  | .assign target source =>
      intro token ht
      simp only [Assignment.tokens, List.mem_append, List.mem_singleton] at ht
      rcases ht with (ht | ht) | rfl
      · exact target.isKnown_tokens token ht
      · exact source.isKnown_tokens token ht
      · trivial

theorem Target.isKnown_tokens (tree : Target) : ∀ token ∈ tree.tokens, token.IsKnown := by
  match tree with
  | .letter letter => simp [Target.tokens, Token.IsKnown]
  | .followed target assignment =>
      intro token ht
      rcases List.mem_append.mp ht with ht | ht
      · exact target.isKnown_tokens token ht
      · exact assignment.isKnown_tokens token ht

end

theorem Phrase.isKnown_tokens (phrases : List Phrase) :
    ∀ token ∈ phrases.flatMap Phrase.tokens, token.IsKnown := by
  intro token ht
  obtain ⟨phrase, _, ht⟩ := List.mem_flatMap.mp ht
  cases phrase with
  | expression tree => exact tree.isKnown_tokens token ht
  | assignment tree => exact tree.isKnown_tokens token ht

theorem Machine.tokens_written (phrases : List Phrase) (line : String) (h : Phrase.Writes phrases line) :
    Machine.tokens line = phrases.flatMap Phrase.tokens := by
  have hknown := Phrase.isKnown_tokens phrases
  have hwords : ∀ word ∈ (phrases.flatMap Phrase.tokens).map Token.text, Text.IsWord word.toList := by
    intro word hw
    obtain ⟨token, ht, rfl⟩ := List.mem_map.mp hw
    exact token.isWord_text (hknown token ht)
  rw [Machine.tokens, Text.words_spaced _ line hwords h, List.map_map]
  exact (List.map_congr_left fun token ht => token.read_text (hknown token ht)).trans (List.map_id _)

-- The last cell that is left gives the value of the line.
theorem Machine.top_cells (left : List Deferred) (bindings : Bindings) :
    (Machine.top ⟨left.map Deferred.cell, bindings⟩, bindings) =
      (match left with
        | [] => Effect.pure none
        | last :: _ => last.read.andThen fun number => Effect.pure (some number)) bindings := by
  cases left with
  | nil => rfl
  | cons last rest =>
      simp only [Effect.andThen, List.map_cons, top]
      rw [last.read_eq (last.cell :: rest.map Deferred.cell) bindings]
      cases resolve ⟨last.cell :: rest.map Deferred.cell, bindings⟩ last.cell <;> rfl

-- On every line of the grammar the machine does what the trees mean.
theorem evaluate_written [Power] (machine : Machine) (phrases : List Phrase) (line : String)
    (h : Phrase.Writes phrases line) :
    ((machine.evaluate line).result, (machine.evaluate line).machine.bindings) =
      Phrase.value phrases machine.bindings := by
  have hrun := Machine.run_phrases phrases [] machine.bindings
  rw [← Machine.tokens_written phrases line h] at hrun
  change (machine.reset.run (Machine.tokens line)).Realizes _ _ at hrun
  change (_, (machine.reset.run (Machine.tokens line)).machine.bindings) = _
  rw [Phrase.value, Effect.andThen]
  generalize Phrase.runAll [] phrases machine.bindings = outcome at hrun ⊢
  match outcome, hrun with
  | (.ok left, changed), ⟨hdone, hmachine⟩ =>
      rw [Machine.result_of_done hdone, hmachine]
      exact Machine.top_cells left changed
  | (.error error, changed), ⟨hfailed, hbindings⟩ =>
      rw [Machine.result_of_failure hfailed, hbindings]

-- The letter is pushed before it is assigned to and read after it.
theorem evaluate_written_late_letter :
    let five : Numeral := ⟨false, [5], [], by simp⟩
    let one : Numeral := ⟨false, [1], [], by simp⟩
    let tree : Expression := .operation
      (.followed (.plain (.letter ⟨0⟩)) (.assign (.letter ⟨0⟩) (.plain (.number five))))
      (.plain (.number one)) .add
    Phrase.Writes [.expression tree] " A A 5\t=  1 +" ∧
      (Machine.initial.evaluate " A A 5\t=  1 +").result = .ok (some (Binary64.ofInt 6)) := by
  intro five one tree
  have hline : Phrase.Writes [.expression tree] " A A 5\t=  1 +" :=
    .cons [' '] [' '] _ "A" _ (by decide) (by decide) (by simp) <|
    .cons [] [' '] _ "A" _ (by decide) (by decide) (by simp) <|
    .cons [] ['\t'] _ "5" _ (by decide) (by decide) (by simp) <|
    .cons [] [' '] _ "=" _ (by decide) (by decide) (by simp) <|
    .cons [' '] [' '] _ "1" _ (by decide) (by decide) (by simp) <|
    .cons [] [] _ "+" _ (by decide) (by decide) (by simp) <|
    .nil [] (by decide)
  have hvalue : (Phrase.value [.expression tree] Machine.initial.bindings).1 =
      .ok (some (Binary64.ofInt 6)) := by decide +kernel
  have hmeaning := evaluate_written .initial [.expression tree] " A A 5\t=  1 +" hline
  exact ⟨hline, (congrArg Prod.fst hmeaning).trans hvalue⟩

end PostfixCalc
