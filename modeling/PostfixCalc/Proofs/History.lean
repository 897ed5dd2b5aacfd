import PostfixCalc.History
import PostfixCalc.Proofs.Bindings.Views
import PostfixCalc.Proofs.Session.Sharing
import PostfixCalc.Proofs.WholeNumber

namespace PostfixCalc

namespace Revision

theorem writes_clear (calls : List Revision) : writes (calls ++ [.clear]) = [] := by
  simp [writes, isClear]

theorem writes_assign (calls : List Revision) (name : Subject) (value : Quantity) :
    writes (calls ++ [.assign name value]) =
      writes calls ++ (write? (.assign name value)).toList := by
  simp only [writes, List.reverse_append, List.reverse_singleton, List.singleton_append]
  rw [List.takeWhile_cons_of_pos (by rfl), List.reverse_cons, List.filterMap_append]
  cases h : write? (.assign name value) <;> simp [h]

-- A name that was set down before is not put at the end again.
theorem firstNames_concat_of_mem {writes : List (String × Binary64)} {name : String}
    (value : Binary64) (h : name ∈ writes.map Prod.fst) :
    firstNames (writes ++ [(name, value)]) = firstNames writes := by
  have hnone : [name].removeAll (writes.map Prod.fst) = [] := by simp [List.removeAll, h]
  rw [firstNames, List.map_append, List.eraseDups_append, List.map_singleton, hnone, firstNames]
  exact List.append_nil _

theorem firstNames_concat_of_not_mem {writes : List (String × Binary64)} {name : String}
    (value : Binary64) (h : name ∉ writes.map Prod.fst) :
    firstNames (writes ++ [(name, value)]) = firstNames writes ++ [name] := by
  have hone : [name].removeAll (writes.map Prod.fst) = [name] := by simp [List.removeAll, h]
  rw [firstNames, List.map_append, List.eraseDups_append, List.map_singleton, hone, firstNames]
  rfl

theorem lastValue?_concat_self (writes : List (String × Binary64)) (name : String)
    (value : Binary64) : lastValue? (writes ++ [(name, value)]) name = some value := by
  simp [lastValue?]

theorem lastValue?_concat_of_ne (writes : List (String × Binary64)) {name other : String}
    (value : Binary64) (h : other ≠ name) :
    lastValue? (writes ++ [(name, value)]) other = lastValue? writes other := by
  rw [lastValue?, List.reverse_concat]
  exact Untyped.Table.lookup_cons_of_ne value _ h

theorem write?_letter (letter : Letter) {value : Quantity} {converted : Binary64}
    (hvalue : value.toBinary64 = .ok converted) :
    write? (.assign (.text letter.name) value) = some (letter.name, converted) := by
  simp [write?, Token.isVariable, hvalue, Except.toOption]

theorem write?_badValue (letter : Letter) {value : Quantity} {error : CallError}
    (hvalue : value.toBinary64 = .error error) :
    write? (.assign (.text letter.name) value) = none := by
  simp [write?, hvalue, Except.toOption]

theorem write?_badName {name : Subject} (value : Quantity)
    (hname : ∀ letter : Letter, name ≠ .text letter.name) : write? (.assign name value) = none := by
  cases name with
  | text text =>
      have hletter : Letter.ofName? text = none := by
        refine Option.eq_none_iff_forall_ne_some.mpr fun letter hletter => hname letter ?_
        rw [Letter.ofName?_eq_some_iff.mp hletter]
      simp [write?, Token.isVariable, hletter]
  | _ => rfl

end Revision

namespace Machine

-- All that a call can do.
inductive Revises (machine : Machine) : Revision → Except CallError Unit → Machine → Prop where
  | clear : Revises machine .clear (.ok ()) { machine with bindings := .empty }
  | assign (letter : Letter) (value : Quantity) (converted : Binary64)
      (hvalue : value.toBinary64 = .ok converted) :
      Revises machine (.assign (.text letter.name) value) (.ok ())
        { machine with bindings := machine.bindings.set letter converted }
  | badValue (letter : Letter) (value : Quantity) (error : CallError)
      (hvalue : value.toBinary64 = .error error) :
      Revises machine (.assign (.text letter.name) value) (.error error) machine
  | badName (name : Subject) (value : Quantity)
      (hname : ∀ letter : Letter, name ≠ .text letter.name) :
      Revises machine (.assign name value) (.error (.evaluation (.invalidTarget name))) machine

-- Both as a step and as an action a call does one of these.
theorem exists_revises [Power] (machine : Machine) (call : Revision) :
    ∃ result after, machine.Revises call result after ∧
      machine.perform call.step = (after, result.map fun _ => .done) ∧
      call.action.run.run machine = (result.mapError .call, after) := by
  cases call with
  | clear => exact ⟨_, _, .clear, rfl, rfl⟩
  | assign name value =>
      by_cases hname : ∃ letter : Letter, name = .text letter.name
      · obtain ⟨letter, rfl⟩ := hname
        cases hvalue : value.toBinary64 with
        | ok converted =>
            have hassigns := machine.assigns_letter letter hvalue
            exact ⟨_, _, .assign letter value converted hvalue, hassigns.step, hassigns.action⟩
        | error error =>
            have hassigns := machine.assigns_refused letter hvalue
            exact ⟨_, _, .badValue letter value error hvalue, hassigns.step, hassigns.action⟩
      · simp only [not_exists] at hname
        have hassigns := machine.assigns_invalid value hname
        exact ⟨_, _, .badName name value hname, hassigns.step, hassigns.action⟩

-- What a call sets down is what it changes.
theorem Revises.write?_eq {machine after : Machine} {name : Subject} {value : Quantity}
    {result : Except CallError Unit} (h : machine.Revises (.assign name value) result after) :
    (result = .ok () ∧ ∃ (letter : Letter) (converted : Binary64),
      Revision.write? (.assign name value) = some (letter.name, converted) ∧
        after = { machine with bindings := machine.bindings.set letter converted }) ∨
    ((∃ error, result = .error error) ∧ Revision.write? (.assign name value) = none ∧
      after = machine) := by
  cases h with
  | assign letter value converted hvalue =>
      exact .inl ⟨rfl, letter, converted, Revision.write?_letter letter hvalue, rfl⟩
  | badValue letter value error hvalue =>
      exact .inr ⟨⟨_, rfl⟩, Revision.write?_badValue letter hvalue, rfl⟩
  | badName name value hname => exact .inr ⟨⟨_, rfl⟩, Revision.write?_badName value hname, rfl⟩

end Machine

namespace Bindings

variable {bindings : Bindings} {writes : List (String × Binary64)}

-- The variables have what was set down: each name once, in the place of its first value, and with
-- its last.
structure Follows (bindings : Bindings) (writes : List (String × Binary64)) : Prop where
  names : bindings.snapshot.map Prod.fst = Revision.firstNames writes
  find? : ∀ name, bindings.find? name = Revision.lastValue? writes name

theorem follows_empty : Follows .empty [] where
  names := rfl
  find? name := by
    unfold Bindings.find?
    cases Letter.ofName? name <;> rfl

theorem Follows.mem_snapshot (h : bindings.Follows writes) (name : String) :
    name ∈ bindings.snapshot.map Prod.fst ↔ name ∈ writes.map Prod.fst := by
  rw [h.names, Revision.firstNames, List.mem_eraseDups]

theorem Follows.set (h : bindings.Follows writes) (letter : Letter) (value : Binary64) :
    (bindings.set letter value).Follows (writes ++ [(letter.name, value)]) where
  names := by
    rw [Untyped.snapshot_set, Untyped.Table.names_put]
    by_cases hmem : letter.name ∈ writes.map Prod.fst
    · rw [if_pos ((h.mem_snapshot _).mpr hmem), h.names,
        Revision.firstNames_concat_of_mem value hmem]
    · rw [if_neg fun h' => hmem ((h.mem_snapshot _).mp h'), h.names,
        Revision.firstNames_concat_of_not_mem value hmem]
  find? name := by
    rw [← Untyped.lookup_snapshot, Untyped.snapshot_set]
    by_cases hname : name = letter.name
    · rw [hname, Untyped.Table.lookup_put_self, Revision.lastValue?_concat_self]
    · rw [Untyped.Table.lookup_put_of_ne value _ hname, Untyped.lookup_snapshot, h.find?,
        Revision.lastValue?_concat_of_ne writes value hname]

end Bindings

namespace Machine

theorem revised_concat (machine : Machine) (calls : List Revision) (call : Revision) :
    machine.revised (calls ++ [call]) = (call.action.run.run (machine.revised calls)).2 := by
  simp [revised]

variable [Power]

theorem revised_eq_performAll (machine : Machine) (calls : List Revision) :
    machine.revised calls = machine.performAll (calls.map Revision.step) := by
  induction calls using List.reverseRecOn with
  | nil => rfl
  | append_singleton calls call ih =>
      obtain ⟨result, after, -, hstep, haction⟩ := (machine.revised calls).exists_revises call
      rw [revised_concat, haction, List.map_append, performAll_append, ← ih]
      exact (congrArg Prod.fst hstep).symm

-- A call that goes through adds what it sets down to what is there; one that fails adds nothing.
theorem follows_revised (calls : List Revision) :
    (initial.revised calls).bindings.Follows (Revision.writes calls) := by
  induction calls using List.reverseRecOn with
  | nil => exact Bindings.follows_empty
  | append_singleton calls call ih =>
      obtain ⟨result, after, hrevises, -, haction⟩ := (initial.revised calls).exists_revises call
      rw [revised_concat, haction]
      cases call with
      | clear =>
          cases hrevises
          rw [Revision.writes_clear]
          exact Bindings.follows_empty
      | assign name value =>
          rw [Revision.writes_assign]
          rcases hrevises.write?_eq with ⟨-, letter, converted, hwrite, rfl⟩ | ⟨-, hwrite, rfl⟩
          · rw [hwrite]
            exact ih.set letter converted
          · rw [hwrite, Option.toList_none, List.append_nil]
            exact ih

end Machine

-- All that can be seen of the variables when the given values have been set down.
structure Bindings.Shows (bindings : Bindings) (writes : List (String × Binary64)) : Prop where
  lookup : ∀ name, bindings.lookup name =
    (Revision.lastValue? writes name).elim (.error (.unassignedVariable name)) .ok
  contains : ∀ name, bindings.contains name = true ↔ ∃ value, bindings.lookup name = .ok value
  increasing : bindings.names.Pairwise (· < ·)
  mem_names : ∀ name, name ∈ bindings.names ↔ ∃ value, bindings.lookup name = .ok value
  order : bindings.snapshot.map Prod.fst = Revision.firstNames writes
  values : ∀ name value, (name, value) ∈ bindings.snapshot ↔ bindings.lookup name = .ok value
  entries : ∀ items, Text.Lists "VariableTable(\x7b" "\x7d)" items bindings.text ↔
    items = bindings.snapshot.map fun (name, value) => entryText name value
  size_names : bindings.size = bindings.names.length
  size_snapshot : bindings.size = bindings.snapshot.length
  size_entries : ∀ items, Text.Lists "VariableTable(\x7b" "\x7d)" items bindings.text →
    bindings.size = items.length

theorem Bindings.Follows.shows {bindings : Bindings} {writes : List (String × Binary64)}
    (h : bindings.Follows writes) : bindings.Shows writes where
  lookup name := by rw [lookup_eq_elim, h.find?]
  contains := bindings.contains_iff
  increasing := bindings.increasing_names
  mem_names := bindings.mem_names
  order := h.names
  values _ _ := bindings.mem_snapshot
  entries := bindings.lists_text_iff
  size_names := bindings.size_eq_length_names
  size_snapshot := bindings.size_eq_length_snapshot
  size_entries items hitems := by
    rw [(bindings.lists_text_iff items).mp hitems, List.length_map]
    exact bindings.size_eq_length_snapshot

-- However often the variables are assigned to and cleared, all views of them show the values that
-- were assigned last, in the order of the first assignments since they were cleared. An assignment
-- that fails is the same as none.
theorem bindings_recall_history [Power] (calls : List Revision) :
    let machine := Machine.initial.revised calls
    machine = Machine.initial.performAll (calls.map Revision.step) ∧
    machine.bindings.Shows (Revision.writes calls) ∧
    ∀ name value,
      let attempt := (Revision.action (.assign name value)).run.run machine
      (attempt.1 = .ok () ↔ (Revision.write? (.assign name value)).isSome) ∧
      (∀ breakdown, attempt.1 = .error breakdown → attempt.2 = machine) := by
  intro machine
  refine ⟨Machine.revised_eq_performAll .initial calls, (Machine.follows_revised calls).shows, ?_⟩
  intro name value attempt
  obtain ⟨result, after, hrevises, -, haction⟩ := machine.exists_revises (.assign name value)
  have hattempt : attempt = (result.mapError .call, after) := haction
  rw [hattempt]
  rcases hrevises.write?_eq with ⟨rfl, letter, converted, hwrite, -⟩ | ⟨⟨error, rfl⟩, hwrite, rfl⟩
  · rw [hwrite]
    exact ⟨by simp [Except.mapError], by simp [Except.mapError]⟩
  · rw [hwrite]
    exact ⟨by simp [Except.mapError], fun _ _ => rfl⟩

-- B keeps the first place when it gets another value, and what came before the clearing is gone.
example :
    let calls : List Revision :=
      [.assign (.text "A") (.integer 5), .clear, .assign (.text "B") (.integer 1),
        .assign (.text "A") (.integer 2), .assign (.text "AB") (.integer 4),
        .assign (.text "B") (.integer (10 ^ 400)), .assign (.text "C") (.foreign "no number"),
        .assign (.text "B") (.integer 3)]
    (Machine.initial.revised calls).bindings.text = "VariableTable(\x7b'B': 3.0, 'A': 2.0\x7d)" := by
  decide +kernel

end PostfixCalc
