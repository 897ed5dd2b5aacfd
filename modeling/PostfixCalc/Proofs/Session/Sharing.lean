import Mathlib.Data.List.Nodup
import PostfixCalc.Session.Sharing

namespace PostfixCalc

namespace Machine

variable [Power]

-- A line starts from an empty stack, so that what was on the stack before makes no difference.
theorem perform_line_congr {first second : Machine} {step : Session.Step} (hline : step.isLine)
    (h : first.bindings = second.bindings) : first.perform step = second.perform step := by
  have hreset : first.reset = second.reset := by simp only [reset, h]
  cases step with
  | evaluate line => simp only [perform, evaluate, hreset]
  | answer line => simp only [perform, answer, evaluate, hreset]
  | _ => simp [Session.Step.isLine] at hline

theorem performAll_append (machine : Machine) (first second : List Session.Step) :
    machine.performAll (first ++ second) = (machine.performAll first).performAll second :=
  List.foldl_append

end Machine

namespace Session

theorem linesFor_cons (host : Nat) (hosts : List Nat) (call : Call) (rest : List Call) :
    linesFor host hosts (call :: rest) =
      linesFor host hosts [call] ++ linesFor host (hostsThen hosts call) rest := by
  simp only [linesFor]
  split <;> rfl

theorem perform_addressed [Power] (session : Session) {call : Call}
    (h : call.evaluator? = some call.index) :
    session.perform call.index call.step =
      (session.update call.index ((session.machine call.index).perform call.step).1,
        ((session.machine call.index).perform call.step).2) := by
  obtain ⟨index, step⟩ := call
  cases step with
  | create sharing => simp [Call.evaluator?] at h
  | _ => rfl

-- The session and one machine for each host have the same bindings. The places of the bindings
-- may be any, as long as no two hosts have the same.
structure Mirrors (session : Session) (hosts : List Nat) (place : Nat → Nat)
    (singles : Nat → Machine) : Prop where
  places : session.evaluators.map Evaluator.place = hosts.map place
  host_lt : ∀ host ∈ hosts, host < hosts.length
  place_inj : ∀ host ∈ hosts, ∀ other ∈ hosts, place host = place other → host = other
  bindings : ∀ host ∈ hosts, session.bindings[place host]? = some (singles host).bindings
  fresh : ∀ host, hosts.length ≤ host → (singles host).bindings = .empty

section

variable {session : Session} {hosts : List Nat} {place : Nat → Nat} {singles : Nat → Machine}

theorem mirrors_initial : Mirrors initial [0] id (fun _ => .initial) where
  places := rfl
  host_lt := by simp
  place_inj := fun _ _ _ _ h => h
  bindings := by simp [initial, Machine.initial]
  fresh := fun _ _ => rfl

theorem Mirrors.map_place (h : Mirrors session hosts place singles) (index : Nat) :
    session.evaluators[index]?.map Evaluator.place = hosts[index]?.map place := by
  simpa using congrArg (·[index]?) h.places

theorem Mirrors.exists_evaluator (h : Mirrors session hosts place singles) {index host : Nat}
    (hhost : hosts[index]? = some host) :
    ∃ stack, session.evaluators[index]? = some ⟨stack, place host⟩ ∧
      session.machine index = ⟨stack, (singles host).bindings⟩ := by
  have hplace := h.map_place index
  rw [hhost, Option.map_some, Option.map_eq_some_iff] at hplace
  obtain ⟨⟨stack, spot⟩, hevaluator, rfl⟩ := hplace
  have hbindings := h.bindings host (List.mem_of_getElem? hhost)
  refine ⟨stack, hevaluator, ?_⟩
  simp only [machine, hevaluator, List.getD_eq_getElem?_getD, hbindings, Option.getD_some]

theorem Mirrors.evaluator_eq_none (h : Mirrors session hosts place singles) {index : Nat}
    (hhost : hosts[index]? = none) : session.evaluators[index]? = none := by
  have hplace := h.map_place index
  rwa [hhost, Option.map_none, Option.map_eq_none_iff] at hplace

theorem Mirrors.update (h : Mirrors session hosts place singles) {index host : Nat}
    (hhost : hosts[index]? = some host) (machine : Machine) {next : Nat → Machine}
    (hnext : (next host).bindings = machine.bindings)
    (hothers : ∀ other, other ≠ host → (next other).bindings = (singles other).bindings) :
    Mirrors (session.update index machine) hosts place next := by
  obtain ⟨stack, hevaluator, -⟩ := h.exists_evaluator hhost
  have hmem : host ∈ hosts := List.mem_of_getElem? hhost
  simp only [Session.update, hevaluator]
  refine ⟨?_, h.host_lt, h.place_inj, ?_, ?_⟩
  · -- the evaluator has its bindings where it had them
    rw [List.map_set, h.places]
    obtain ⟨hlt, hget⟩ := List.getElem?_eq_some_iff.mp hhost
    have hlt_map : index < (hosts.map place).length := by simpa using hlt
    have hself : place host = (hosts.map place)[index] := by simp [hget]
    rw [hself, List.set_getElem_self]
  · intro other hother
    by_cases heq : other = host
    · obtain ⟨hlt, -⟩ := List.getElem?_eq_some_iff.mp (h.bindings host hmem)
      rw [heq, List.getElem?_set_self hlt, hnext]
    · -- and no other host has its bindings there
      have hne : place host ≠ place other :=
        fun hplace => heq (h.place_inj host hmem other hother hplace).symm
      rw [List.getElem?_set_ne hne, h.bindings other hother, hothers other heq]
  · intro other hother
    have hne : other ≠ host := fun heq => absurd (h.host_lt host hmem) (by omega)
    rw [hothers other hne, h.fresh other hother]

theorem Mirrors.create_sharing (h : Mirrors session hosts place singles) {index host : Nat}
    (hhost : hosts[index]? = some host) :
    Mirrors (session.create (some index)) (hosts ++ [host]) place singles := by
  obtain ⟨stack, hevaluator, -⟩ := h.exists_evaluator hhost
  have hmem : host ∈ hosts := List.mem_of_getElem? hhost
  have hhosts : ∀ other ∈ hosts ++ [host], other ∈ hosts := by
    intro other hother
    rcases List.mem_append.mp hother with hold | hnew
    · exact hold
    · rwa [List.mem_singleton.mp hnew]
  simp only [create, Option.bind_some, hevaluator]
  refine ⟨?_, ?_, ?_, ?_, ?_⟩
  · simp [h.places]
  · intro other hother
    have hlt := h.host_lt other (hhosts other hother)
    simp only [List.length_append]
    omega
  · intro first hfirst second hsecond
    exact h.place_inj first (hhosts first hfirst) second (hhosts second hsecond)
  · exact fun other hother => h.bindings other (hhosts other hother)
  · intro other hother
    simp only [List.length_append] at hother
    exact h.fresh other (by omega)

-- The new evaluator is its own host, and its bindings come after all others.
theorem Mirrors.create_alone (h : Mirrors session hosts place singles) {sharing : Option Nat}
    (hnone : sharing.bind (session.evaluators[·]?) = none) :
    Mirrors (session.create sharing) (hosts ++ [hosts.length])
      (fun host => if host = hosts.length then session.bindings.length else place host) singles := by
  have hold : ∀ host ∈ hosts, host ≠ hosts.length :=
    fun host hmem heq => absurd (h.host_lt host hmem) (by omega)
  have hplace_lt : ∀ host ∈ hosts, place host < session.bindings.length := by
    intro host hmem
    obtain ⟨hlt, -⟩ := List.getElem?_eq_some_iff.mp (h.bindings host hmem)
    exact hlt
  have hcases : ∀ host ∈ hosts ++ [hosts.length], host ∈ hosts ∨ host = hosts.length := by simp
  simp only [create, hnone]
  refine ⟨?_, ?_, ?_, ?_, ?_⟩
  · have hsame : hosts.map (fun host =>
        if host = hosts.length then session.bindings.length else place host) = hosts.map place :=
      List.map_congr_left fun host hmem => if_neg (hold host hmem)
    simp [h.places, hsame]
  · intro host hhost
    simp only [List.length_append, List.length_singleton]
    rcases hcases host hhost with hmem | rfl
    · have hlt := h.host_lt host hmem
      omega
    · omega
  · intro first hfirst second hsecond heq
    rcases hcases first hfirst with hmem | rfl <;> rcases hcases second hsecond with hsec | rfl
    · rw [if_neg (hold first hmem), if_neg (hold second hsec)] at heq
      exact h.place_inj first hmem second hsec heq
    · rw [if_neg (hold first hmem), if_pos rfl] at heq
      exact absurd (hplace_lt first hmem) (by omega)
    · rw [if_pos rfl, if_neg (hold second hsec)] at heq
      exact absurd (hplace_lt second hsec) (by omega)
    · rfl
  · intro host hhost
    rcases hcases host hhost with hmem | rfl
    · rw [if_neg (hold host hmem), List.getElem?_append_left (hplace_lt host hmem)]
      exact h.bindings host hmem
    · rw [if_pos rfl, List.getElem?_concat_length, h.fresh hosts.length (Nat.le_refl _)]
  · intro host hhost
    simp only [List.length_append] at hhost
    exact h.fresh host (by omega)

theorem Mirrors.create (h : Mirrors session hosts place singles) (index : Nat)
    (sharing : Option Nat) :
    ∃ later, Mirrors (session.create sharing) (hostsThen hosts ⟨index, .create sharing⟩)
      later singles := by
  cases sharing with
  | none => exact ⟨_, h.create_alone rfl⟩
  | some other =>
      simp only [hostsThen, Option.bind_some]
      cases hhost : hosts[other]? with
      | none => exact ⟨_, h.create_alone (h.evaluator_eq_none hhost)⟩
      | some host => exact ⟨place, h.create_sharing hhost⟩

theorem Mirrors.line [Power] (h : Mirrors session hosts place singles) (index : Nat) (step : Step)
    (hline : step.isLine) :
    Mirrors (session.update index ((session.machine index).perform step).1) hosts place
      (fun host => (singles host).performAll (linesFor host hosts [⟨index, step⟩])) := by
  cases hhost : hosts[index]? with
  | none =>
      have hsession : session.update index ((session.machine index).perform step).1 = session := by
        simp only [Session.update, h.evaluator_eq_none hhost]
      have hlines : ∀ host, linesFor host hosts [⟨index, step⟩] = [] := by simp [linesFor, hhost]
      simp only [hsession, hlines]
      exact h
  | some host =>
      obtain ⟨stack, -, hmachine⟩ := h.exists_evaluator hhost
      have hlines : linesFor host hosts [⟨index, step⟩] = [step] := by simp [linesFor, hhost, hline]
      have hsame : (session.machine index).bindings = (singles host).bindings := by rw [hmachine]
      apply h.update hhost
      · rw [hlines, Machine.perform_line_congr hline hsame]
        rfl
      · intro other hother
        have hnone : linesFor other hosts [⟨index, step⟩] = [] := by
          simp [linesFor, hhost, Ne.symm hother]
        rw [hnone]
        rfl

theorem Mirrors.reset (h : Mirrors session hosts place singles) (index : Nat) :
    Mirrors (session.update index (session.machine index).reset) hosts place singles := by
  cases hhost : hosts[index]? with
  | none =>
      simp only [Session.update, h.evaluator_eq_none hhost]
      exact h
  | some host =>
      obtain ⟨stack, -, hmachine⟩ := h.exists_evaluator hhost
      exact h.update hhost _ (by rw [hmachine]; rfl) (fun _ _ => rfl)

-- A call does to the bindings of the evaluator that it addresses what it does to those of the
-- machine that stands for its host.
theorem Mirrors.perform [Power] (h : Mirrors session hosts place singles) (call : Call)
    (hplain : call.step.isPlain) :
    ∃ later, Mirrors (session.perform call.index call.step).1 (hostsThen hosts call) later
      (fun host => (singles host).performAll (linesFor host hosts [call])) := by
  obtain ⟨index, step⟩ := call
  cases step with
  | create sharing => exact h.create index sharing
  | reset => exact ⟨place, h.reset index⟩
  | evaluate line => exact ⟨place, h.line index (.evaluate line) rfl⟩
  | answer line => exact ⟨place, h.line index (.answer line) rfl⟩
  | _ => simp [Step.isPlain] at hplain

theorem Mirrors.after [Power] (h : Mirrors session hosts place singles) (calls : List Call)
    (hplain : ∀ call ∈ calls, call.step.isPlain) :
    ∃ later, Mirrors (session.after calls) (hostsAfter hosts calls) later
      (fun host => (singles host).performAll (linesFor host hosts calls)) := by
  induction calls generalizing session hosts place singles with
  | nil => exact ⟨place, h⟩
  | cons call rest ih =>
      obtain ⟨between, hcall⟩ := h.perform call (hplain call (by simp))
      obtain ⟨later, hrest⟩ := ih hcall (fun other hother => hplain other (by simp [hother]))
      refine ⟨later, ?_⟩
      simp only [linesFor_cons _ hosts call rest, Machine.performAll_append]
      exact hrest

theorem Mirrors.machine_create (h : Mirrors session hosts place singles) (sharing : Option Nat)
    {other host : Nat} (hother : hosts[other]? = some host) :
    (session.create sharing).machine other = session.machine other := by
  obtain ⟨stack, hevaluator, -⟩ := h.exists_evaluator hother
  obtain ⟨hlt, -⟩ := List.getElem?_eq_some_iff.mp hevaluator
  obtain ⟨hplace, -⟩ :=
    List.getElem?_eq_some_iff.mp (h.bindings host (List.mem_of_getElem? hother))
  simp only [Session.create]
  split
  · simp only [machine, List.getElem?_append_left hlt]
  · simp only [machine, List.getElem?_append_left hlt, hevaluator, List.getD_eq_getElem?_getD,
      List.getElem?_append_left hplace]

theorem stack_update_of_ne (session : Session) {index other : Nat} (machine : Machine)
    (hne : index ≠ other) :
    ((session.update index machine).machine other).stack = (session.machine other).stack := by
  simp only [Session.update]
  split
  · simp only [Session.machine, List.getElem?_set_ne hne]
    cases session.evaluators[other]? <;> rfl
  · rfl

theorem Mirrors.bindings_update_of_ne (h : Mirrors session hosts place singles)
    {index other host : Nat} (machine : Machine) (hother : hosts[other]? = some host)
    (hne : hosts[index]? ≠ some host) :
    ((session.update index machine).machine other).bindings = (session.machine other).bindings := by
  cases hindex : hosts[index]? with
  | none => simp only [Session.update, h.evaluator_eq_none hindex]
  | some owner =>
      have howner : owner ≠ host := fun heq => hne (heq ▸ hindex)
      obtain ⟨stack, hevaluator, -⟩ := h.exists_evaluator hindex
      obtain ⟨below, hstays, -⟩ := h.exists_evaluator hother
      have hindex_ne : index ≠ other := by
        rintro rfl
        exact hne hother
      have hplace : place owner ≠ place host := fun heq =>
        howner (h.place_inj owner (List.mem_of_getElem? hindex) host
          (List.mem_of_getElem? hother) heq)
      simp only [Session.update, hevaluator, Session.machine, List.getElem?_set_ne hindex_ne, hstays,
        List.getD_eq_getElem?_getD, List.getElem?_set_ne hplace]

-- Whatever the step is, it leaves the stacks of all but the evaluator addressed as they are, and
-- the bindings of all but those with the same host.
theorem Mirrors.machine_other [Power] (h : Mirrors session hosts place singles) (call : Call)
    {other host : Nat} (hother : hosts[other]? = some host) :
    (call.evaluator? ≠ some other →
      ((session.perform call.index call.step).1.machine other).stack =
        (session.machine other).stack) ∧
    (call.evaluator?.bind (hosts[·]?) ≠ some host →
      ((session.perform call.index call.step).1.machine other).bindings =
        (session.machine other).bindings) := by
  by_cases haddressed : call.evaluator? = some call.index
  · rw [perform_addressed session haddressed, haddressed]
    refine ⟨fun hne => ?_, fun hne => ?_⟩
    · exact stack_update_of_ne session _ (fun heq => hne (congrArg some heq))
    · exact h.bindings_update_of_ne _ hother hne
  · obtain ⟨index, step⟩ := call
    cases step with
    | create sharing =>
        have hsame := h.machine_create sharing hother
        exact ⟨fun _ => congrArg Machine.stack hsame, fun _ => congrArg Machine.bindings hsame⟩
    | _ => exact absurd rfl haddressed

theorem Mirrors.perform_line [Power] (h : Mirrors session hosts place singles) {index host : Nat}
    (hhost : hosts[index]? = some host) {step : Step} (hline : step.isLine) :
    (session.perform index step).2 = ((singles host).perform step).2 ∧
      (session.perform index step).1.machine index = ((singles host).perform step).1 := by
  obtain ⟨stack, hevaluator, hmachine⟩ := h.exists_evaluator hhost
  have hsame : (session.machine index).bindings = (singles host).bindings := by rw [hmachine]
  have haddressed : Call.evaluator? ⟨index, step⟩ = some index := by
    cases step with
    | create sharing => simp [Step.isLine] at hline
    | _ => rfl
  have hperform := perform_addressed session haddressed
  simp only [Machine.perform_line_congr hline hsame] at hperform
  obtain ⟨hlt, -⟩ := List.getElem?_eq_some_iff.mp hevaluator
  obtain ⟨hplace, -⟩ :=
    List.getElem?_eq_some_iff.mp (h.bindings host (List.mem_of_getElem? hhost))
  rw [hperform]
  refine ⟨rfl, ?_⟩
  simp only [Session.update, hevaluator, Session.machine, List.getElem?_set_self hlt,
    List.getD_eq_getElem?_getD, List.getElem?_set_self hplace, Option.getD_some]

end

end Session

-- Evaluators that share bindings answer lines as a single machine would that is given, in their
-- order, the lines for all of them. A step on one evaluator is not seen by the others, but for what
-- it does to the bindings that they share.
theorem session_mirrors_singles [Power] (calls : List Session.Call)
    (hplain : ∀ call ∈ calls, call.step.isPlain) :
    let session := Session.initial.after calls
    let hosts := Session.hostsAfter [0] calls
    (∀ (index host : Nat) (step : Session.Step), hosts[index]? = some host → step.isLine →
      let single := Machine.initial.performAll (Session.linesFor host [0] calls)
      (session.perform index step).2 = (single.perform step).2 ∧
        (session.perform index step).1.machine index = (single.perform step).1) ∧
    (∀ (call : Session.Call) (other host : Nat), hosts[other]? = some host →
      (call.evaluator? ≠ some other →
        ((session.perform call.index call.step).1.machine other).stack =
          (session.machine other).stack) ∧
      (call.evaluator?.bind (hosts[·]?) ≠ some host →
        ((session.perform call.index call.step).1.machine other).bindings =
          (session.machine other).bindings)) := by
  intro session hosts
  obtain ⟨place, hmirrors⟩ := Session.mirrors_initial.after calls hplain
  refine ⟨fun index host step hhost hline => ?_, fun call other host hother => ?_⟩
  · exact hmirrors.perform_line hhost hline
  · exact hmirrors.machine_other call hother

-- The second evaluator shares a table in which nothing has been assigned yet; the third has one of
-- its own.
theorem session_mirrors_singles_shared_empty :
    let calls : List Session.Call :=
      [⟨0, .create (some 0)⟩, ⟨0, .create none⟩, ⟨1, .answer "A 7 ="⟩, ⟨2, .answer "A A"⟩, ⟨0, .reset⟩]
    let session := Session.initial.after calls
    (∀ call ∈ calls, call.step.isPlain) ∧ Session.hostsAfter [0] calls = [0, 0, 2] ∧
      (session.perform 0 (.evaluate "A 1 +")).2 = .ok (.value (Binary64.ofInt 8)) ∧
      ((session.perform 0 (.evaluate "A 1 =")).1.machine 2).bindings = (session.machine 2).bindings := by
  intro calls session
  have hplain : ∀ call ∈ calls, call.step.isPlain := by decide
  have hhosts : Session.hostsAfter [0] calls = [0, 0, 2] := rfl
  have hsession := session_mirrors_singles calls hplain
  have hline := (hsession.1 0 0 (.evaluate "A 1 +") rfl rfl).1
  have hother := (hsession.2 ⟨0, .evaluate "A 1 ="⟩ 2 2 rfl).2
  have hvalue : ((Machine.initial.performAll [.answer "A 7 ="]).evaluate "A 1 +").result =
      .ok (some (Binary64.ofInt 8)) := by decide +kernel
  have hlines : Session.linesFor 0 [0] calls = [.answer "A 7 ="] := rfl
  refine ⟨hplain, hhosts, hline.trans ?_, hother (by decide)⟩
  rw [hlines]
  simp only [Machine.perform, hvalue]

end PostfixCalc
