import PostfixCalc.Unguarded
import PostfixCalc.Proofs.Binary64.Display
import PostfixCalc.Proofs.Binary64.Reading
import PostfixCalc.Proofs.Bindings
import PostfixCalc.Proofs.Console.Dialogue
import PostfixCalc.Proofs.Machine.Reachable
import PostfixCalc.Proofs.Quantity
import PostfixCalc.Proofs.Settings

namespace PostfixCalc

namespace Unguarded

-- An action comes to the given end, which is a value or an error of evaluation and no breakdown.
def Does {α : Type} (action : Action α) (machine : Machine) (result : Except EvalError α)
    (next : Machine) : Prop :=
  action.run.run machine = (result.mapError fun error => .call (.evaluation error), next)

theorem Does.bind {α β : Type} {first : Action α} {next : α → Action β} {value : α}
    {machine between after : Machine} {result : Except EvalError β}
    (hfirst : Does first machine (.ok value) between) (hnext : Does (next value) between result after) :
    Does (first >>= next) machine result after := by
  unfold Does at *
  simp only [ExceptT.run_bind, StateT.run_bind]
  rw [hfirst]
  exact hnext

theorem Does.bind_error {α β : Type} {first : Action α} (next : α → Action β) {error : EvalError}
    {machine after : Machine} (hfirst : Does first machine (.error error) after) :
    Does (first >>= next) machine (.error error) after := by
  unfold Does at *
  simp only [ExceptT.run_bind, StateT.run_bind]
  rw [hfirst]
  rfl

theorem Does.uncaught {α : Type} {first : Action α} (handler : Breakdown → Action α) {value : α}
    {machine after : Machine} (hfirst : Does first machine (.ok value) after) :
    Does (tryCatch first handler) machine (.ok value) after := by
  unfold Does at *
  simp only [ExceptT.run_tryCatch, StateT.run_bind]
  rw [hfirst]
  rfl

theorem Does.caught {α : Type} {first : Action α} {handler : Breakdown → Action α}
    {error : EvalError} {machine between after : Machine} {result : Except EvalError α}
    (hfirst : Does first machine (.error error) between)
    (hcaught : Does (handler (.call (.evaluation error))) between result after) :
    Does (tryCatch first handler) machine result after := by
  unfold Does at *
  simp only [ExceptT.run_tryCatch, StateT.run_bind]
  rw [hfirst]
  exact hcaught

theorem does_pure {α : Type} (value : α) (machine : Machine) :
    Does (pure value) machine (.ok value) machine := rfl

theorem does_get (machine : Machine) : Does get machine (.ok machine) machine := rfl

theorem does_modify (change : Machine → Machine) (machine : Machine) :
    Does (modify change) machine (.ok ()) (change machine) := rfl

theorem does_stop {α : Type} (error : EvalError) (machine : Machine) :
    Does (stop error : Action α) machine (.error error) machine := rfl

theorem does_put (cell : Cell) (machine : Machine) :
    Does (put cell) machine (.ok ()) { machine with stack := cell :: machine.stack } := rfl

theorem does_take {machine : Machine} {cell : Cell} {rest : List Cell}
    (h : machine.stack = cell :: rest) :
    Does take machine (.ok cell) { machine with stack := rest } := by
  apply (does_get machine).bind
  rw [h]
  exact (does_modify _ machine).bind (does_pure cell _)

theorem does_require (text : String) {machine : Machine} (h : ¬machine.stack.length < 2) :
    Does (require text) machine (.ok ()) machine := by
  apply (does_get machine).bind
  simp only [h, ite_false]
  exact does_pure () machine

theorem does_require_short (text : String) {machine : Machine} (h : machine.stack.length < 2) :
    Does (require text) machine (.error (.stackUnderflow text machine.stack.length)) machine := by
  apply (does_get machine).bind
  simp only [h, ite_true]
  exact does_stop _ machine

theorem does_resolve (cell : Cell) (machine : Machine) :
    Does (resolve cell) machine (machine.resolve cell) machine := by
  cases cell with
  | number value => exact does_pure value machine
  | foreign text => exact does_stop _ machine
  | reference name =>
      apply (does_get machine).bind
      simp only [Machine.resolve]
      cases machine.bindings.lookup name with
      | ok value => exact does_pure value machine
      | error error => exact does_stop error machine

-- The table of the operators comes about, and has all of them.
theorem exists_table :
    ∃ table, Settings.standard.operators = .ok table ∧
      ∀ op : Operator, table.lookup op.symbol = some op := by
  obtain ⟨table, htable⟩ := @Settings.exists_operators .standard fun _ hmem => hmem
  refine ⟨table, htable, fun op => ?_⟩
  have hmem : op ∈ Operator.all := by cases op <;> decide
  exact (Settings.lookup_operators_iff htable _ _).mpr ⟨List.mem_map_of_mem hmem, rfl⟩

theorem does_assign (letter : Letter) (value : Binary64) (machine : Machine) :
    Does (assign letter.name value) machine (.ok ())
      { machine with bindings := machine.bindings.set letter value } := by
  apply (does_get machine).bind
  rw [machine.bindings.assign_letter letter rfl]
  exact (does_pure _ machine).bind (does_modify _ machine)

theorem does_read (numeral : Numeral) (machine : Machine) :
    Does (read numeral.text) machine (.ok numeral.value) machine := by
  unfold read
  rw [Binary64.ofText?_text]
  exact does_pure numeral.value machine

-- The tests are made in the order in which reading makes them.
theorem classify_eq (text : String) : classify text = (Token.read text).kind := by
  rw [← Token.kindBy_eq_kind (List.Perm.refl Token.recognisers) text]
  unfold classify Token.kindBy Token.recognisers
  simp only [← Token.isOperator_iff_lookup, List.find?_cons, List.find?_nil]
  split
  · rfl
  cases Token.isNumber text with
  | true => rfl
  | false =>
      cases Token.isOperator text with
      | true => rfl
      | false =>
          cases Token.isAssign text with
          | true => rfl
          | false => cases Token.isVariable text <;> rfl

theorem isVariable_name (letter : Letter) : Token.isVariable letter.name = true := by
  simp [Token.isVariable]

def outcome (reaction : Reaction) : Except EvalError Unit :=
  match reaction.failure with
  | none => .ok ()
  | some error => .error error

theorem does_resolve_popped {machine : Machine} {cell : Cell} {result : Except EvalError Binary64}
    (stack : List Cell) (h : machine.resolve cell = result) :
    Does (resolve cell) { machine with stack := stack } result { machine with stack := stack } := by
  rw [← h, ← machine.resolve_popped stack]
  exact does_resolve cell _

theorem does_store (machine : Machine) :
    Does (store Token.assignMark) machine (outcome machine.store) machine.store.machine := by
  have hcases := machine.store_cases
  generalize machine.store = reaction at hcases ⊢
  cases hcases with
  | short hshort => exact (does_require_short Token.assignMark hshort).bind_error _
  | noTarget source target rest hstack htarget =>
      apply (does_require Token.assignMark (by simp [hstack])).bind
      apply (does_take hstack).bind
      apply (does_take rfl).bind
      cases target with
      | number value => exact does_stop _ _
      | foreign text => exact does_stop _ _
      | reference name =>
          have hname : ¬Token.isVariable name = true := by
            simpa [Token.isVariable, Machine.target?] using htarget
          simp only [hname]
          exact does_stop _ _
  | sourceFails source target rest letter error hstack htarget hsource =>
      obtain rfl := Machine.eq_reference_of_target? htarget
      apply (does_require Token.assignMark (by simp [hstack])).bind
      apply (does_take hstack).bind
      apply (does_take rfl).bind
      simp only [isVariable_name, ite_true]
      exact (does_resolve_popped rest hsource).bind_error _
  | done source target rest letter value hstack htarget hsource =>
      obtain rfl := Machine.eq_reference_of_target? htarget
      apply (does_require Token.assignMark (by simp [hstack])).bind
      apply (does_take hstack).bind
      apply (does_take rfl).bind
      simp only [isVariable_name, ite_true]
      exact (does_resolve_popped rest hsource).bind (does_assign letter value _)

theorem does_top (machine : Machine) :
    Does (do
      match (← get).stack with
      | [] => return none
      | cell :: _ => return some (← resolve cell)) machine machine.top machine := by
  apply (does_get machine).bind
  unfold Machine.top
  cases machine.stack with
  | nil => exact does_pure none machine
  | cons cell rest =>
      have hcell := does_resolve cell machine
      simp only
      cases hvalue : machine.resolve cell with
      | ok value =>
          rw [hvalue] at hcell
          exact hcell.bind (does_pure (some value) machine)
      | error error =>
          rw [hvalue] at hcell
          exact hcell.bind_error _

theorem intText_signed (negative : Bool) (whole : Nat) :
    Decimal.intText (if negative then -(whole : Int) else whole) =
      Binary64.signText (negative && whole != 0) ++ Decimal.natText whole := by
  cases negative with
  | false => simp [Decimal.intText, Binary64.signText]
  | true =>
      obtain rfl | hpos := Nat.eq_zero_or_pos whole
      · rfl
      · have hbelow : -(whole : Int) < 0 := by omega
        simp only [ite_true, Decimal.intText, hbelow, Int.natAbs_neg, Int.natAbs_natCast]
        simp [Binary64.signText, hpos.ne']

theorem showsWhole_iff (negative : Bool) (rank : Fin Binary64.overflowRank) :
    ((Binary64.finite negative rank).isInteger &&
      (Binary64.finite negative rank).isBelow Binary64.wholeLimit) = true ↔
      Binary64.IsWhole rank := by
  rw [Bool.and_eq_true, Binary64.isInteger, Binary64.isBelow, beq_iff_eq, decide_eq_true_eq,
    Binary64.IsWhole, Nat.div_lt_iff_lt_mul Binary64.oneQuanta_pos]

-- Only whole numbers are truncated.
theorem does_display (value : Binary64) (machine : Machine) :
    Does (display value) machine (.ok value.display) machine := by
  cases value with
  | nan => exact does_pure _ machine
  | infinity negative => cases negative <;> exact does_pure _ machine
  | finite negative rank =>
      unfold display
      rw [if_neg (by simp), if_neg (by simp), if_neg (by simp), Binary64.display_finite]
      by_cases hwhole : Binary64.IsWhole rank
      · rw [if_pos ((showsWhole_iff negative rank).mpr hwhole), if_pos hwhole, ← intText_signed]
        exact does_pure _ machine
      · rw [if_neg (mt (showsWhole_iff negative rank).mp hwhole), if_neg hwhole]
        exact does_pure _ machine

theorem does_bracket (text : String) (machine : Machine) :
    Does (bracket text) machine (.ok (Console.openBracket ++ text ++ Console.closeBracket)) machine :=
  does_pure _ machine

section

variable [Power]

theorem does_apply (op : Operator) (lhs rhs : Binary64) (machine : Machine) :
    Does (apply op.symbol lhs rhs) machine
      (match op.compute? lhs rhs with
        | some value => .ok value
        | none => .error .divisionByZero) machine := by
  obtain ⟨table, htable, hlookup⟩ := exists_table
  have hcall : op.call (.binary lhs) (.binary rhs) = _ := op.call_eq rfl rfl
  unfold apply
  rw [htable]
  apply (does_pure table machine).bind
  simp only [hlookup, hcall]
  cases op.compute? lhs rhs with
  | some value => exact does_pure value machine
  | none => exact does_stop .divisionByZero machine

theorem does_operate (op : Operator) (machine : Machine) :
    Does (operate op.symbol) machine (outcome (machine.operate op)) (machine.operate op).machine := by
  have hcases := machine.operate_cases op
  generalize machine.operate op = reaction at hcases ⊢
  cases hcases with
  | short hshort => exact (does_require_short op.symbol hshort).bind_error _
  | rightFails right left rest error hstack hright =>
      apply (does_require op.symbol (by simp [hstack])).bind
      apply (does_take hstack).bind
      exact (does_resolve_popped _ hright).bind_error _
  | leftFails right left rest rhs error hstack hright hleft =>
      apply (does_require op.symbol (by simp [hstack])).bind
      apply (does_take hstack).bind
      apply (does_resolve_popped _ hright).bind
      apply (does_take rfl).bind
      exact (does_resolve_popped rest hleft).bind_error _
  | noResult right left rest rhs lhs hstack hright hleft hresult =>
      apply (does_require op.symbol (by simp [hstack])).bind
      apply (does_take hstack).bind
      apply (does_resolve_popped _ hright).bind
      apply (does_take rfl).bind
      apply (does_resolve_popped rest hleft).bind
      have happly := does_apply op lhs rhs { machine with stack := rest }
      rw [hresult] at happly
      exact happly.bind_error _
  | done right left rest rhs lhs value hstack hright hleft hresult =>
      apply (does_require op.symbol (by simp [hstack])).bind
      apply (does_take hstack).bind
      apply (does_resolve_popped _ hright).bind
      apply (does_take rfl).bind
      apply (does_resolve_popped rest hleft).bind
      have happly := does_apply op lhs rhs { machine with stack := rest }
      rw [hresult] at happly
      exact happly.bind (does_put _ _)

theorem does_handle (text : String) (machine : Machine) :
    Does (handle text) machine (outcome (machine.step (Token.read text)))
      (machine.step (Token.read text)).machine := by
  unfold handle
  rw [classify_eq]
  generalize htoken : Token.read text = token
  have htext : text = token.text := by rw [← htoken, Token.text_read]
  cases token with
  | blank => exact does_pure () machine
  | number numeral =>
      rw [htext]
      exact (does_read numeral machine).bind (does_put _ machine)
  | operator op =>
      rw [htext]
      exact does_operate op machine
  | assign =>
      rw [htext]
      exact does_store machine
  | «variable» letter =>
      rw [htext]
      exact does_put _ machine
  | unknown word =>
      obtain rfl := htext
      exact does_stop _ machine

theorem does_words (words : List String) (machine : Machine) :
    Does (words.forM handle) machine (outcome (machine.run (words.map Token.read)))
      (machine.run (words.map Token.read)).machine := by
  induction words generalizing machine with
  | nil => exact does_pure () machine
  | cons word words ih =>
      have hword := does_handle word machine
      change Does (do handle word; words.forM handle) machine _ _
      rw [List.map_cons]
      cases hfailure : (machine.step (Token.read word)).failure with
      | some error =>
          rw [Machine.run_cons_failed _ hfailure]
          simp only [outcome, hfailure] at hword ⊢
          exact hword.bind_error _
      | none =>
          simp only [outcome, hfailure] at hword
          rw [outcome, Machine.failure_run_cons _ hfailure, Machine.machine_run_cons _ hfailure]
          exact hword.bind (ih _)

theorem does_evaluate (line : String) (machine : Machine) :
    Does (evaluate line) machine (machine.evaluate line).result (machine.evaluate line).machine := by
  have hwords : Does ((Text.words line).forM handle) machine.reset
      (outcome (machine.reset.run (Machine.tokens line)))
      (machine.reset.run (Machine.tokens line)).machine :=
    does_words (Text.words line) machine.reset
  apply (does_modify Machine.reset machine).bind
  cases hfailure : (machine.reset.run (Machine.tokens line)).failure with
  | some error =>
      rw [Machine.result_of_failure hfailure]
      simp only [outcome, hfailure] at hwords
      exact hwords.bind_error _
  | none =>
      rw [Machine.result_of_done hfailure]
      simp only [outcome, hfailure] at hwords
      exact hwords.bind (does_top _)

theorem does_attempt (line : String) (machine : Machine) :
    Does (attempt line) machine (.ok (machine.evaluate line).result)
      (machine.evaluate line).machine := by
  have hline := does_evaluate line machine
  cases hresult : (machine.evaluate line).result with
  | error error =>
      rw [hresult] at hline
      exact (hline.bind_error _).caught (does_pure (Except.error error) _)
  | ok value =>
      rw [hresult] at hline
      exact (hline.bind (does_pure (Except.ok value) _)).uncaught _

theorem does_answer (line : String) (machine : Machine) :
    Does (answer line) machine
      (.ok ((machine.answer line).succeeded, Console.shown (machine.answer line).events))
      (machine.answer line).machine := by
  have hline := does_attempt line machine
  rw [Machine.shown_answer]
  cases hresult : (machine.evaluate line).result with
  | error error =>
      rw [hresult] at hline
      simp only [Machine.answer, hresult]
      exact hline.bind ((does_modify Machine.reset _).bind (does_pure _ _))
  | ok value =>
      rw [hresult] at hline
      cases value with
      | none =>
          simp only [Machine.answer, hresult]
          exact hline.bind (does_pure _ _)
      | some number =>
          simp only [Machine.answer, hresult]
          apply hline.bind
          apply (does_display number _).bind
          exact (does_bracket number.display _).bind (does_pure _ _)

end

-- The ends that the program accounts for.
def IsAccounted {α : Type} : Except Breakdown α → Prop
  | .ok _ => True
  | .error (.call (.evaluation error)) => error.IsOrdinary
  | .error _ => False

theorem Does.isAccounted {α : Type} {action : Action α} {machine after : Machine}
    {result : Except EvalError α} (h : Does action machine result after)
    (hresult : ∀ error, result = .error error → error.IsOrdinary) :
    IsAccounted (action.run.run machine).1 := by
  rw [h]
  cases result with
  | ok value => trivial
  | error error => exact hresult error rfl

-- No operation is ever left without something to work on, and no value without a way to show it. The
-- actions do what the machine does, on any stack, and come to an end that is accounted for: a line
-- whatever the stack was before it, a single token wherever lines, tokens, assignments, clearings
-- and resets can lead.
theorem actions_accounted [Power] (machine : Machine) (line text : String) :
    (Does (evaluate line) machine (machine.evaluate line).result (machine.evaluate line).machine ∧
      IsAccounted ((evaluate line).run.run machine).1 ∧
      Does (answer line) machine
        (.ok ((machine.answer line).succeeded, Console.shown (machine.answer line).events))
        (machine.answer line).machine) ∧
    Does (handle text) machine (outcome (machine.step (Token.read text)))
      (machine.step (Token.read text)).machine ∧
    (machine.Reachable Session.Step.IsOrdinary →
      IsAccounted ((handle text).run.run machine).1) := by
  have hline := does_evaluate line machine
  have htoken := does_handle text machine
  refine ⟨⟨hline, ?_, does_answer line machine⟩, htoken, ?_⟩
  · exact hline.isAccounted fun error he => Machine.isOrdinary_evaluate he
  · intro hmachine
    have hproper := Machine.isProper_step (Token.read text) hmachine.isProper
    refine htoken.isAccounted fun error he => hproper.failure error ?_
    unfold outcome at he
    split at he
    · exact absurd he (by simp)
    · obtain rfl := Except.error.inj he
      assumption

-- An operator has failed and has taken both of its operands with it.
theorem actions_accounted_after_failure :
    let machine := (((Machine.initial.perform (.token "B")).1.perform (.token "2")).1.perform
      (.token "/")).1
    machine.Reachable Session.Step.IsOrdinary ∧ IsAccounted ((handle "=").run.run machine).1 := by
  intro machine
  have hmachine : machine.Reachable Session.Step.IsOrdinary :=
    .perform _ _ (.perform _ _ (.perform _ _ .initial trivial) trivial) trivial
  exact ⟨hmachine, (actions_accounted machine "" "=").2.2 hmachine⟩

end Unguarded

end PostfixCalc
