import PostfixCalc.Machine

namespace PostfixCalc

-- One reaction and then, unless it failed, what comes next.
def Reaction.andThen (first : Reaction) (next : Machine → Reaction) : Reaction :=
  match first.failure with
  | some _ => first
  | none => { next first.machine with records := first.records ++ (next first.machine).records }

namespace Reaction

theorem andThen_failed {first : Reaction} {error : EvalError} (next : Machine → Reaction)
    (h : first.failure = some error) : first.andThen next = first := by
  simp [andThen, h]

theorem machine_andThen {first : Reaction} (next : Machine → Reaction) (h : first.failure = none) :
    (first.andThen next).machine = (next first.machine).machine := by
  simp [andThen, h]

theorem failure_andThen {first : Reaction} (next : Machine → Reaction) (h : first.failure = none) :
    (first.andThen next).failure = (next first.machine).failure := by
  simp [andThen, h]

theorem andThen_assoc (first : Reaction) (second third : Machine → Reaction) :
    (first.andThen second).andThen third =
      first.andThen (fun machine => (second machine).andThen third) := by
  cases hfirst : first.failure with
  | some error => simp [andThen, hfirst]
  | none =>
      cases hsecond : (second first.machine).failure with
      | some error => simp [andThen, hfirst, hsecond]
      | none => simp [andThen, hfirst, hsecond]

end Reaction

namespace Machine

variable [Power]

theorem run_cons (machine : Machine) (token : Token) (rest : List Token) :
    machine.run (token :: rest) = (machine.step token).andThen (·.run rest) := rfl

theorem run_append (machine : Machine) (first second : List Token) :
    machine.run (first ++ second) = (machine.run first).andThen (·.run second) := by
  induction first generalizing machine with
  | nil => rfl
  | cons token first ih =>
      rw [List.cons_append, run_cons, run_cons, Reaction.andThen_assoc]
      congr 1
      funext next
      exact ih next

theorem run_singleton (machine : Machine) (token : Token) :
    machine.run [token] = machine.step token := by
  rw [run_cons]
  generalize machine.step token = reaction
  obtain ⟨next, failure, records⟩ := reaction
  cases failure <;> simp [Reaction.andThen, run]

theorem failure_run_cons {machine : Machine} {token : Token} (rest : List Token)
    (h : (machine.step token).failure = none) :
    (machine.run (token :: rest)).failure = ((machine.step token).machine.run rest).failure := by
  rw [run_cons, Reaction.failure_andThen _ h]

theorem machine_run_cons {machine : Machine} {token : Token} (rest : List Token)
    (h : (machine.step token).failure = none) :
    (machine.run (token :: rest)).machine = ((machine.step token).machine.run rest).machine := by
  rw [run_cons, Reaction.machine_andThen _ h]

theorem run_cons_failed {machine : Machine} {token : Token} {error : EvalError} (rest : List Token)
    (h : (machine.step token).failure = some error) :
    machine.run (token :: rest) = machine.step token := by
  rw [run_cons, Reaction.andThen_failed _ h]

-- What holds before a run and is kept by each of its tokens, also by one that fails, holds after it.
theorem run_induction {motive : Machine → Prop} {machine : Machine} {tokens : List Token}
    (hstart : motive machine)
    (hstep : ∀ token ∈ tokens, ∀ machine, motive machine → motive (machine.step token).machine) :
    motive (machine.run tokens).machine := by
  induction tokens generalizing machine with
  | nil => exact hstart
  | cons token rest ih =>
      have hnext := hstep token List.mem_cons_self machine hstart
      cases hfailure : (machine.step token).failure with
      | some error =>
          rw [run_cons_failed rest hfailure]
          exact hnext
      | none =>
          rw [machine_run_cons rest hfailure]
          exact ih hnext fun other hother => hstep other (List.mem_cons_of_mem _ hother)

-- The tokens before a place go through, and the token at that place fails.
def FailsAt (machine : Machine) (tokens : List Token) (place : Nat) (error : EvalError) : Prop :=
  (machine.run (tokens.take place)).failure = none ∧
    ∃ token, tokens[place]? = some token ∧
      ((machine.run (tokens.take place)).machine.step token).failure = some error

theorem failsAt_cons_zero {machine : Machine} {token : Token} {rest : List Token}
    {error : EvalError} (h : (machine.step token).failure = some error) :
    machine.FailsAt (token :: rest) 0 error :=
  ⟨rfl, token, rfl, h⟩

theorem failsAt_cons_succ {machine : Machine} {token : Token} {rest : List Token} {place : Nat}
    {error : EvalError} (hfirst : (machine.step token).failure = none)
    (h : (machine.step token).machine.FailsAt rest place error) :
    machine.FailsAt (token :: rest) (place + 1) error := by
  obtain ⟨hbefore, failing, hplace, hfailure⟩ := h
  refine ⟨?_, failing, hplace, ?_⟩
  · rw [List.take_succ_cons, failure_run_cons _ hfirst]
    exact hbefore
  · rw [List.take_succ_cons, machine_run_cons _ hfirst]
    exact hfailure

theorem FailsAt.failure_run {machine : Machine} {tokens : List Token} {place : Nat}
    {error : EvalError} (h : machine.FailsAt tokens place error) :
    (machine.run tokens).failure = some error := by
  obtain ⟨hbefore, token, hplace, hfailure⟩ := h
  have hsplit : tokens = tokens.take place ++ token :: tokens.drop (place + 1) := by
    obtain ⟨hlt, rfl⟩ := List.getElem?_eq_some_iff.mp hplace
    rw [List.getElem_cons_drop, List.take_append_drop]
  rw [hsplit, run_append, Reaction.failure_andThen _ hbefore, run_cons_failed _ hfailure, hfailure]

-- A run that fails does so at one of its tokens.
theorem exists_failsAt {machine : Machine} {tokens : List Token} {error : EvalError}
    (h : (machine.run tokens).failure = some error) :
    ∃ place, machine.FailsAt tokens place error := by
  induction tokens generalizing machine with
  | nil => exact absurd h (by simp [run])
  | cons token rest ih =>
      cases hfailure : (machine.step token).failure with
      | some first =>
          rw [run_cons_failed rest hfailure, hfailure] at h
          obtain rfl := Option.some.inj h
          exact ⟨0, failsAt_cons_zero hfailure⟩
      | none =>
          rw [failure_run_cons rest hfailure] at h
          obtain ⟨place, hplace⟩ := ih h
          exact ⟨place + 1, failsAt_cons_succ hfailure hplace⟩

theorem result_of_failure {machine : Machine} {line : String} {error : EvalError}
    (h : (machine.reset.run (tokens line)).failure = some error) :
    (machine.evaluate line).result = .error error := by
  simp [evaluate, h]

theorem result_of_done {machine : Machine} {line : String}
    (h : (machine.reset.run (tokens line)).failure = none) :
    (machine.evaluate line).result = (machine.reset.run (tokens line)).machine.top := by
  simp [evaluate, h]

-- The outcome of a line is decided by whether its tokens fail and by the cell that they leave on top.
theorem result_congr_of_top {machine other : Machine} {line text : String}
    (hfailure : (machine.reset.run (tokens line)).failure =
      (other.reset.run (tokens text)).failure)
    (htop : (machine.evaluate line).machine.top = (other.evaluate text).machine.top) :
    (machine.evaluate line).result = (other.evaluate text).result := by
  simp only [evaluate] at htop ⊢
  rw [hfailure, htop]

theorem records_of_error {machine : Machine} {line : String} {error : EvalError}
    (h : (machine.evaluate line).result = .error error) :
    (machine.evaluate line).records = .tokens (Text.words line) ::
      ((machine.reset.run (tokens line)).records ++ [.failed line error]) := by
  simp only [evaluate] at h ⊢
  rw [h]

theorem records_of_ok {machine : Machine} {line : String} {value : Option Binary64}
    (h : (machine.evaluate line).result = .ok value) :
    (machine.evaluate line).records =
      .tokens (Text.words line) :: (machine.reset.run (tokens line)).records := by
  simp only [evaluate] at h ⊢
  rw [h, List.append_nil]

end Machine

end PostfixCalc
