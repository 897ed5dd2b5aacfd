import PostfixCalc.Proofs.Console.Results
import PostfixCalc.Proofs.Machine.Frame
import PostfixCalc.Session.Sharing

namespace PostfixCalc

-- A line of a session, and whether it is still there when some lines are taken out.
structure Entry where
  line : String
  stays : Bool

-- A line that has no `=`.
def IsQuery (line : String) : Prop := Token.assignMark ∉ Text.words line

instance (line : String) : Decidable (IsQuery line) :=
  inferInstanceAs (Decidable (Token.assignMark ∉ Text.words line))

namespace Machine

variable [Power]

-- The lines of a session and what they come to. A line finds all that the one before it has left.
-- When that one has failed, its cells are still on the stack, unlike in a batch.
def transcript (machine : Machine) : List Entry → List (Entry × Evaluation)
  | [] => []
  | entry :: rest =>
    (entry, machine.evaluate entry.line) :: (machine.evaluate entry.line).machine.transcript rest

def afterLines (machine : Machine) (lines : List String) : Machine :=
  machine.performAll (lines.map .evaluate)

theorem bindings_evaluate_of_isQuery (machine : Machine) {line : String} (h : IsQuery line) :
    (machine.evaluate line).machine.bindings = machine.bindings :=
  machine.reset.bindings_run_of_no_assign fun hassign => h (mem_words_of_assign_mem_tokens hassign)

-- What is left of a query is no more than what was there, as far as any line can tell.
theorem evaluate_after_query (machine : Machine) {query : String} (h : IsQuery query)
    (line : String) : (machine.evaluate query).machine.evaluate line = machine.evaluate line :=
  evaluate_congr (machine.bindings_evaluate_of_isQuery h) line

theorem transcript_after_query (machine : Machine) {query : String} (h : IsQuery query)
    (entries : List Entry) :
    (machine.evaluate query).machine.transcript entries = machine.transcript entries := by
  cases entries with
  | nil => rfl
  | cons entry rest => rw [transcript, transcript, machine.evaluate_after_query h]

theorem bindings_afterLines_after_query (machine : Machine) {query : String} (h : IsQuery query)
    (lines : List String) :
    ((machine.evaluate query).machine.afterLines lines).bindings =
      (machine.afterLines lines).bindings := by
  cases lines with
  | nil => exact machine.bindings_evaluate_of_isQuery h
  | cons line rest =>
      have hline := machine.evaluate_after_query h line
      simp only [afterLines, List.map_cons, performAll, List.foldl_cons, perform, hline]

theorem transcript_filter (machine : Machine) {entries : List Entry}
    (h : ∀ entry ∈ entries, entry.stays = false → IsQuery entry.line) :
    machine.transcript (entries.filter Entry.stays) =
      (machine.transcript entries).filter (·.1.stays) := by
  induction entries generalizing machine with
  | nil => rfl
  | cons entry rest ih =>
      rw [List.forall_mem_cons] at h
      have hrest := ih (machine.evaluate entry.line).machine h.2
      cases hstays : entry.stays with
      | true =>
          rw [List.filter_cons_of_pos hstays, transcript, transcript,
            List.filter_cons_of_pos (by exact hstays), hrest]
      | false =>
          -- what is left of the query is passed over, so that the rest starts as if without it
          rw [List.filter_cons_of_neg (by simp [hstays]), transcript,
            List.filter_cons_of_neg (by simp [hstays]), ← hrest,
            machine.transcript_after_query (h.1 hstays)]

theorem bindings_afterLines_filter (machine : Machine) {entries : List Entry}
    (h : ∀ entry ∈ entries, entry.stays = false → IsQuery entry.line) :
    (machine.afterLines ((entries.filter Entry.stays).map Entry.line)).bindings =
      (machine.afterLines (entries.map Entry.line)).bindings := by
  induction entries generalizing machine with
  | nil => rfl
  | cons entry rest ih =>
      rw [List.forall_mem_cons] at h
      have hrest := ih (machine.evaluate entry.line).machine h.2
      cases hstays : entry.stays with
      | true =>
          rw [List.filter_cons_of_pos hstays]
          exact hrest
      | false =>
          rw [List.filter_cons_of_neg (by simp [hstays]),
            ← machine.bindings_afterLines_after_query (h.1 hstays), hrest]
          rfl

end Machine

-- Lines without a `=` can be taken out of a session, or asked again, and nothing else is different
-- for it: not what any other line comes to, whether it fails or not, nor the variables at the end.
theorem queries_leave_no_trace [Power] (machine : Machine) :
    (∀ entries : List Entry, (∀ entry ∈ entries, entry.stays = false → IsQuery entry.line) →
      machine.transcript (entries.filter Entry.stays) =
        (machine.transcript entries).filter (·.1.stays) ∧
      (machine.afterLines ((entries.filter Entry.stays).map Entry.line)).bindings =
        (machine.afterLines (entries.map Entry.line)).bindings) ∧
    ∀ line, IsQuery line →
      (machine.evaluate line).machine.evaluate line = machine.evaluate line ∧
      (machine.evaluate line).machine.bindings = machine.bindings := by
  constructor
  · intro entries hentries
    exact ⟨machine.transcript_filter hentries, machine.bindings_afterLines_filter hentries⟩
  · intro line hline
    exact ⟨machine.evaluate_after_query hline line, machine.bindings_evaluate_of_isQuery hline⟩

-- The first query fails with three cells still on the stack, and the second when it has taken both of
-- its operands.
theorem queries_leave_no_trace_half_done :
    let machine : Machine := ⟨[.foreign "left over"], .empty⟩
    let entries : List Entry :=
      [⟨"A 2 =", true⟩, ⟨"7 A 3 Z +", false⟩, ⟨"B A 1 + =", true⟩, ⟨"B 0 /", false⟩, ⟨"B", true⟩]
    (∀ entry ∈ entries, entry.stays = false → IsQuery entry.line) ∧
      (machine.transcript (entries.filter Entry.stays)).length = 3 ∧
      machine.transcript (entries.filter Entry.stays) =
        (machine.transcript entries).filter (·.1.stays) ∧
      IsQuery "7 A 3 Z +" ∧
      (machine.evaluate "7 A 3 Z +").machine.stack =
        [.number (Binary64.ofInt 3), .reference "A", .number (Binary64.ofInt 7)] ∧
      (machine.evaluate "7 A 3 Z +").machine.evaluate "7 A 3 Z +" = machine.evaluate "7 A 3 Z +" := by
  intro machine entries
  have hentries : ∀ entry ∈ entries, entry.stays = false → IsQuery entry.line := by decide
  have hquery : IsQuery "7 A 3 Z +" := by decide
  have hqueries := queries_leave_no_trace machine
  exact ⟨hentries, rfl, (hqueries.1 entries hentries).1, hquery, by decide +kernel,
    (hqueries.2 _ hquery).1⟩

end PostfixCalc
