import PostfixCalc.Proofs.Console.Results
import PostfixCalc.Proofs.Machine.Frame

namespace PostfixCalc

-- The same value, or none on both sides, for each name.
def Bindings.SameValues (first second : Bindings) : Prop :=
  ∀ name, first.lookup name = second.lookup name

theorem Bindings.AgreeOn.sameValues {first second : Bindings}
    (h : first.AgreeOn (fun _ => True) second) : first.SameValues second :=
  fun _ => h.lookup_eq fun _ _ => trivial

namespace Machine

-- Neither of two lines may write a letter that is in the other.
structure Independent (first second : String) : Prop where
  left : ∀ letter, Writes first letter → ¬Mentions second letter
  right : ∀ letter, Writes second letter → ¬Mentions first letter

namespace Independent

variable {first second : String}

theorem symm (h : Independent first second) : Independent second first := ⟨h.right, h.left⟩

variable [Power]

-- What the second line reads is not touched by the first.
theorem agreeOn (h : Independent first second) (machine : Machine) :
    (machine.evaluate first).machine.bindings.AgreeOn (Mentions second) machine.bindings :=
  fun letter hletter =>
    machine.get?_evaluate_of_not_writes fun hwrites => h.left letter hwrites hletter

theorem result_eq (h : Independent first second) (machine : Machine) :
    ((machine.evaluate first).machine.evaluate second).result =
      (machine.evaluate second).result :=
  (evaluate_alike second (h.agreeOn machine) fun _ => id).result

-- A letter that the first line may write is left alone by the second, be it later or earlier.
theorem get?_of_writes (h : Independent first second) (machine : Machine) {letter : Letter}
    (hwrites : Writes first letter) :
    ((machine.evaluate first).machine.evaluate second).machine.bindings.get? letter =
      ((machine.evaluate second).machine.evaluate first).machine.bindings.get? letter := by
  have hearlier := (evaluate_alike first (h.symm.agreeOn machine) fun _ => id).machine.bindings
  calc ((machine.evaluate first).machine.evaluate second).machine.bindings.get? letter
    _ = (machine.evaluate first).machine.bindings.get? letter :=
      (machine.evaluate first).machine.get?_evaluate_of_not_mentions (h.left letter hwrites)
    _ = ((machine.evaluate second).machine.evaluate first).machine.bindings.get? letter :=
      (hearlier letter hwrites.2).symm

theorem bindings_agree (h : Independent first second) (machine : Machine) :
    ((machine.evaluate first).machine.evaluate second).machine.bindings.AgreeOn (fun _ => True)
      ((machine.evaluate second).machine.evaluate first).machine.bindings := by
  intro letter _
  by_cases hfirst : Writes first letter
  · exact h.get?_of_writes machine hfirst
  by_cases hsecond : Writes second letter
  · exact (h.symm.get?_of_writes machine hsecond).symm
  · rw [get?_evaluate_of_not_writes _ hsecond, get?_evaluate_of_not_writes _ hfirst,
      get?_evaluate_of_not_writes _ hfirst, get?_evaluate_of_not_writes _ hsecond]

end Independent

variable [Power]

-- A batch sees nothing of a machine but the values of its letters.
theorem answerAll_agree {first second : Machine}
    (h : first.bindings.AgreeOn (fun _ => True) second.bindings) (lines : List String) :
    first.results lines = second.results lines ∧
      (first.answerAll lines).machine.bindings.AgreeOn (fun _ => True)
        (second.answerAll lines).machine.bindings := by
  induction lines generalizing first second with
  | nil => exact ⟨rfl, h⟩
  | cons line rest ih =>
      have halike := evaluate_alike line h fun _ _ => trivial
      have hnext : (first.answer line).machine.bindings.AgreeOn (fun _ => True)
          (second.answer line).machine.bindings := by
        rw [bindings_answer, bindings_answer]
        exact halike.machine.bindings
      obtain ⟨hresults, hlast⟩ := ih hnext
      refine ⟨?_, hlast⟩
      rw [results, results, halike.result, hresults]

-- In a batch that begins with two independent lines, the two may change places.
theorem Independent.answerAll_swap {first second : String} (h : Independent first second)
    (machine : Machine) (after : List String) :
    (∃ one two late, machine.results (first :: second :: after) = one :: two :: late ∧
      machine.results (second :: first :: after) = two :: one :: late) ∧
    (machine.answerAll (first :: second :: after)).machine.bindings.AgreeOn (fun _ => True)
      (machine.answerAll (second :: first :: after)).machine.bindings := by
  have hnext : ((machine.answer first).machine.answer second).machine.bindings.AgreeOn
      (fun _ => True) ((machine.answer second).machine.answer first).machine.bindings := by
    rw [bindings_answer, bindings_answer, evaluate_answer, evaluate_answer]
    exact h.bindings_agree machine
  obtain ⟨hlate, hlast⟩ := answerAll_agree hnext after
  refine ⟨⟨_, _, _, rfl, ?_⟩, hlast⟩
  rw [results, results, evaluate_answer, evaluate_answer, h.result_eq, h.symm.result_eq, hlate]

end Machine

-- Two lines that may write none of each other's letters can change places, whether they fail or
-- not: either line has the result that it has without the other one, and the values of all names
-- are the same in the end. So they can in a batch, wherever they stand next to one another.
theorem independent_lines_commute [Power] {first second : String}
    (h : Machine.Independent first second) :
    (∀ machine : Machine,
      let one := machine.evaluate first
      let two := machine.evaluate second
      (two.machine.evaluate first).result = one.result ∧
      (one.machine.evaluate second).result = two.result ∧
      (one.machine.evaluate second).machine.bindings.SameValues
        (two.machine.evaluate first).machine.bindings) ∧
    ∀ (machine : Machine) (before after : List String),
      let lines := before ++ first :: second :: after
      let swapped := before ++ second :: first :: after
      (∃ early one two late, early.length = before.length ∧
        machine.results lines = early ++ one :: two :: late ∧
        machine.results swapped = early ++ two :: one :: late) ∧
      Console.shown (machine.batch lines).events =
        (machine.results lines).flatMap Console.verdict ∧
      Console.shown (machine.batch swapped).events =
        (machine.results swapped).flatMap Console.verdict ∧
      (machine.batch lines).exitCode = (machine.batch swapped).exitCode ∧
      (machine.batch lines).machine.bindings.SameValues
        (machine.batch swapped).machine.bindings := by
  refine ⟨fun machine => ?_, fun machine before after => ?_⟩
  · exact ⟨h.symm.result_eq machine, h.result_eq machine, (h.bindings_agree machine).sameValues⟩
  intro lines swapped
  let middle := (machine.answerAll before).machine
  obtain ⟨⟨one, two, late, hlines, hswapped⟩, hlast⟩ := h.answerAll_swap middle after
  have hresults : machine.results lines = machine.results before ++ one :: two :: late := by
    rw [machine.results_append before, hlines]
  have hresults' : machine.results swapped = machine.results before ++ two :: one :: late := by
    rw [machine.results_append before, hswapped]
  refine ⟨⟨machine.results before, one, two, late, machine.length_results before, hresults,
    hresults'⟩, machine.shown_batch lines, machine.shown_batch swapped, ?_, ?_⟩
  · -- as many of the results are errors
    have hperm : (one :: two :: late).Perm (two :: one :: late) := .swap two one late
    rw [Machine.exitCode_batch, Machine.exitCode_batch, hresults, hresults',
      (hperm.append_left (machine.results before)).countP_eq]
  · rw [Machine.machine_batch, Machine.machine_batch, Machine.machine_answerAll_append,
      Machine.machine_answerAll_append]
    exact hlast.sameValues

-- The first line assigns to A before it fails, and the second to B. The third reads both letters.
theorem independent_lines_commute_failing :
    let first := "A 1 = A 0 /"
    let second := "B 2 = B D +"
    let lines := [first, second, "A B +"]
    let swapped := [second, first, "A B +"]
    Machine.Independent first second ∧
      ((Machine.initial.evaluate second).machine.evaluate first).result =
        .error .divisionByZero ∧
      (Machine.initial.batch swapped).exitCode = (Machine.initial.batch lines).exitCode ∧
      (Machine.initial.batch lines).machine.bindings.SameValues
        (Machine.initial.batch swapped).machine.bindings := by
  intro first second lines swapped
  have h : Machine.Independent first second := by
    constructor
    all_goals
      rintro ⟨index⟩
      revert index
      decide +kernel
  obtain ⟨hevaluate, hbatches⟩ := independent_lines_commute h
  obtain ⟨-, -, -, hexit, hvalues⟩ := hbatches .initial [] ["A B +"]
  have hfirst : (Machine.initial.evaluate first).result = .error .divisionByZero := by
    decide +kernel
  have hlines : lines = [] ++ first :: second :: ["A B +"] := rfl
  have hswapped : swapped = [] ++ second :: first :: ["A B +"] := rfl
  refine ⟨h, (hevaluate .initial).1.trans hfirst, hexit.symm, ?_⟩
  rw [hlines, hswapped]
  exact hvalues

end PostfixCalc
