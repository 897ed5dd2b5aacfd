import PostfixCalc.Proofs.Bindings
import PostfixCalc.Proofs.Machine.Run
import PostfixCalc.Proofs.Text.Words
import PostfixCalc.Renaming

namespace PostfixCalc

variable (perm : Equiv.Perm Letter)

@[simp] theorem renameName_letter (letter : Letter) :
    renameName perm letter.name = (perm letter).name := by
  simp [renameName]

theorem renameName_of_ofName?_eq_none {name : String} (h : Letter.ofName? name = none) :
    renameName perm name = name := by
  simp [renameName, h]

@[simp] theorem ofName?_renameName (name : String) :
    Letter.ofName? (renameName perm name) = (Letter.ofName? name).map perm := by
  cases hletter : Letter.ofName? name with
  | none => rw [renameName_of_ofName?_eq_none perm hletter, hletter, Option.map_none]
  | some letter =>
      obtain rfl := Letter.ofName?_eq_some_iff.mp hletter
      rw [renameName_letter, Letter.ofName?_name, Option.map_some]

-- Only the letters read as letters, so that no other word changes.
theorem Token.read_renameName (word : String) :
    Token.read (renameName perm word) = (Token.read word).rename perm := by
  cases hletter : Letter.ofName? word with
  | some letter =>
      obtain rfl := Letter.ofName?_eq_some_iff.mp hletter
      rw [renameName_letter, read_name, read_name, rename]
  | none =>
      rw [renameName_of_ofName?_eq_none perm hletter]
      cases htoken : read word with
      | «variable» letter =>
          have hword : word = letter.name := by
            rw [← text_read word, htoken, text]
          exact absurd hletter (by simp [hword])
      | _ => rfl

-- A word stays a word.
theorem isWord_renameName {word : String} (h : Text.IsWord word.toList) :
    Text.IsWord (renameName perm word).toList := by
  cases hletter : Letter.ofName? word with
  | none => rwa [renameName_of_ofName?_eq_none perm hletter]
  | some letter =>
      obtain rfl := Letter.ofName?_eq_some_iff.mp hletter
      rw [renameName_letter]
      exact Token.isWord_text (.variable (perm letter)) trivial

namespace Bindings

theorem put_map (letter : Letter) (value : Binary64) (entries : List (Letter × Binary64)) :
    put (perm letter) value (entries.map fun (key, old) => (perm key, old)) =
      (put letter value entries).map fun (key, old) => (perm key, old) := by
  induction entries with
  | nil => rfl
  | cons entry rest ih =>
      obtain ⟨key, old⟩ := entry
      by_cases hkey : key = letter
      · simp [put, hkey]
      · -- two letters stay two letters
        have hperm : perm key ≠ perm letter := fun h => hkey (perm.injective h)
        simpa [put, hkey, hperm] using ih

theorem set_rename (bindings : Bindings) (letter : Letter) (value : Binary64) :
    (bindings.rename perm).set (perm letter) value = (bindings.set letter value).rename perm := by
  simp only [set, rename, put_map]

theorem get?_rename (bindings : Bindings) (letter : Letter) :
    (bindings.rename perm).get? (perm letter) = bindings.get? letter := by
  simp [get?, rename, List.find?_map, Function.comp_def]

theorem find?_rename (bindings : Bindings) (name : String) :
    (bindings.rename perm).find? (renameName perm name) = bindings.find? name := by
  cases hletter : Letter.ofName? name with
  | none => simp [find?, hletter]
  | some letter => simp [find?, hletter, get?_rename]

theorem lookup_rename (bindings : Bindings) (name : String) :
    (bindings.rename perm).lookup (renameName perm name) =
      (bindings.lookup name).mapError (EvalError.rename perm) := by
  simp only [lookup, find?_rename]
  cases bindings.find? name <;> rfl

end Bindings

-- Two reactions that are one but for the letters in them.
structure Reaction.Renames (first second : Reaction) : Prop where
  machine : second.machine = first.machine.rename perm
  failure : second.failure = first.failure.map (EvalError.rename perm)

-- Both go on or both stop.
theorem Reaction.Renames.andThen {perm : Equiv.Perm Letter} {first second : Reaction}
    {next other : Machine → Reaction} (h : first.Renames perm second)
    (hnext : ∀ machine : Machine, (next machine).Renames perm (other (machine.rename perm))) :
    (first.andThen next).Renames perm (second.andThen other) := by
  have hsecond := h.failure
  cases hfailure : first.failure with
  | some error =>
      rw [hfailure, Option.map_some] at hsecond
      rw [andThen_failed next hfailure, andThen_failed other hsecond]
      exact h
  | none =>
      rw [hfailure, Option.map_none] at hsecond
      have hrest := hnext first.machine
      rw [← h.machine] at hrest
      constructor
      · rw [machine_andThen next hfailure, machine_andThen other hsecond, hrest.machine]
      · rw [failure_andThen next hfailure, failure_andThen other hsecond, hrest.failure]

namespace Machine

theorem resolve_rename (machine : Machine) (cell : Cell) :
    (machine.rename perm).resolve (cell.rename perm) =
      (machine.resolve cell).mapError (EvalError.rename perm) := by
  cases cell with
  | number value => rfl
  | foreign text => rfl
  | reference name => exact machine.bindings.lookup_rename perm name

theorem target?_rename (cell : Cell) : target? (cell.rename perm) = (target? cell).map perm := by
  cases cell with
  | reference name => exact ofName?_renameName perm name
  | _ => rfl

theorem store_renames (machine : Machine) :
    machine.store.Renames perm (machine.rename perm).store := by
  obtain ⟨stack, bindings⟩ := machine
  match stack with
  | [] => exact ⟨rfl, rfl⟩
  | [cell] => exact ⟨rfl, rfl⟩
  | source :: target :: rest =>
      have hsource := resolve_rename perm ⟨source :: target :: rest, bindings⟩ source
      simp only [rename, List.map_cons] at hsource
      simp only [store, rename, List.map_cons, hsource, target?_rename]
      cases target? target with
      | none => exact ⟨rfl, rfl⟩
      | some letter =>
          cases resolve ⟨source :: target :: rest, bindings⟩ source with
          | error error => exact ⟨rfl, rfl⟩
          | ok value =>
              simp only [Option.map_some, Except.mapError, Bindings.set_rename]
              exact ⟨rfl, rfl⟩

theorem top_rename (machine : Machine) :
    (machine.rename perm).top = machine.top.mapError (EvalError.rename perm) := by
  obtain ⟨stack, bindings⟩ := machine
  cases stack with
  | nil => rfl
  | cons cell rest =>
      have hcell := resolve_rename perm ⟨cell :: rest, bindings⟩ cell
      simp only [rename, List.map_cons] at hcell
      simp only [top, rename, List.map_cons, hcell]
      cases resolve ⟨cell :: rest, bindings⟩ cell <;> rfl

variable [Power]

theorem operate_renames (machine : Machine) (op : Operator) :
    (machine.operate op).Renames perm ((machine.rename perm).operate op) := by
  obtain ⟨stack, bindings⟩ := machine
  match stack with
  | [] => exact ⟨rfl, rfl⟩
  | [cell] => exact ⟨rfl, rfl⟩
  | right :: left :: rest =>
      have hright := resolve_rename perm ⟨right :: left :: rest, bindings⟩ right
      have hleft := resolve_rename perm ⟨right :: left :: rest, bindings⟩ left
      simp only [rename, List.map_cons] at hright hleft
      simp only [operate, rename, List.map_cons, hright, hleft]
      cases resolve ⟨right :: left :: rest, bindings⟩ right with
      | error error => exact ⟨rfl, rfl⟩
      | ok rhs =>
          cases resolve ⟨right :: left :: rest, bindings⟩ left with
          | error error => exact ⟨rfl, rfl⟩
          | ok lhs =>
              simp only [Except.mapError]
              cases op.compute? lhs rhs <;> exact ⟨rfl, rfl⟩

theorem step_renames (machine : Machine) (token : Token) :
    (machine.step token).Renames perm ((machine.rename perm).step (token.rename perm)) := by
  cases token with
  | «variable» letter =>
      refine ⟨?_, rfl⟩
      simp [step, push, Token.rename, rename, Cell.rename]
  | operator op => exact machine.operate_renames perm op
  | assign => exact machine.store_renames perm
  | _ => exact ⟨rfl, rfl⟩

theorem run_renames (machine : Machine) (tokens : List Token) :
    (machine.run tokens).Renames perm
      ((machine.rename perm).run (tokens.map (Token.rename perm))) := by
  induction tokens generalizing machine with
  | nil => exact ⟨rfl, rfl⟩
  | cons token rest ih =>
      rw [List.map_cons, run_cons, run_cons]
      exact (machine.step_renames perm token).andThen ih

theorem evaluate_rename (machine : Machine) {line renamed : String}
    (h : Text.words renamed = (Text.words line).map (renameName perm)) :
    ((machine.rename perm).evaluate renamed).result =
        (machine.evaluate line).result.mapError (EvalError.rename perm) ∧
      ((machine.rename perm).evaluate renamed).machine =
        (machine.evaluate line).machine.rename perm := by
  have htokens : tokens renamed = (tokens line).map (Token.rename perm) := by
    simp only [tokens, h, List.map_map]
    exact List.map_congr_left fun word _ => Token.read_renameName perm word
  have hrun := machine.reset.run_renames perm (tokens line)
  rw [← htokens] at hrun
  have hreset : (machine.rename perm).reset = machine.reset.rename perm := rfl
  rw [← hreset] at hrun
  refine ⟨?_, hrun.machine⟩
  cases hfailure : (machine.reset.run (tokens line)).failure with
  | some error =>
      have hother := hrun.failure
      rw [hfailure, Option.map_some] at hother
      rw [result_of_failure hfailure, result_of_failure hother]
      rfl
  | none =>
      have hother := hrun.failure
      rw [hfailure, Option.map_none] at hother
      rw [result_of_done hfailure, result_of_done hother, hrun.machine, top_rename]

end Machine

-- The words of any line can be renamed where they stand.
theorem exists_words_renamed (line : String) :
    ∃ renamed, Text.words renamed = (Text.words line).map (renameName perm) := by
  obtain ⟨hwords, hline⟩ := Text.words_eq_iff.mp (Eq.refl (Text.words line))
  obtain ⟨chars, hchars⟩ := hline.exists_map (renameName perm)
  refine ⟨String.ofList chars, Text.words_eq_iff.mpr ⟨?_, by rwa [String.toList_ofList]⟩⟩
  rw [List.forall_mem_map]
  exact fun word hword => isWord_renameName perm (hwords word hword)

-- No letter is special. When the letters change places in a line and in the variables, they change
-- places in the outcome, and nothing else is different: the value stays the same, an error keeps its
-- kind and all that it says but for the letters in it, and the stack and the variables are those of
-- before under their new names.
theorem letters_interchangeable [Power] (machine : Machine) (line : String) :
    (∃ renamed, Text.words renamed = (Text.words line).map (renameName perm)) ∧
    ∀ renamed, Text.words renamed = (Text.words line).map (renameName perm) →
      ((machine.rename perm).evaluate renamed).result =
        (machine.evaluate line).result.mapError (EvalError.rename perm) ∧
      ((machine.rename perm).evaluate renamed).machine =
        (machine.evaluate line).machine.rename perm :=
  ⟨exists_words_renamed perm line, fun _ h => machine.evaluate_rename perm h⟩

-- The value of B is written before the line fails for want of E, or of A when the two change places.
theorem letters_interchangeable_half_done :
    let perm : Equiv.Perm Letter := Equiv.swap ⟨0⟩ ⟨4⟩
    let machine : Machine := ⟨[], Bindings.empty.set ⟨0⟩ (Binary64.ofInt 3)⟩
    let line := "B A 2 * = 1 B E +"
    let renamed := "B E 2 * =  1 B A +"
    Text.words renamed = (Text.words line).map (renameName perm) ∧
      ((machine.rename perm).evaluate renamed).result = .error (.unassignedVariable "A") ∧
      ((machine.rename perm).evaluate renamed).machine =
        (machine.evaluate line).machine.rename perm ∧
      (machine.evaluate line).machine.bindings.get? ⟨1⟩ = some (Binary64.ofInt 6) := by
  intro perm machine line renamed
  have hwords : Text.words renamed = (Text.words line).map (renameName perm) := by decide +kernel
  have houtcome := (letters_interchangeable perm machine line).2 renamed hwords
  refine ⟨hwords, ?_, houtcome.2, by decide +kernel⟩
  rw [houtcome.1]
  decide +kernel

end PostfixCalc
