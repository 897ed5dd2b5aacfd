import PostfixCalc.Proofs.Bindings
import PostfixCalc.Proofs.Machine.Run
import PostfixCalc.Proofs.Machine.Step

namespace PostfixCalc

-- The same entry, or none on both sides, for each of the letters.
def Bindings.AgreeOn (letters : Letter → Prop) (first second : Bindings) : Prop :=
  ∀ letter, letters letter → first.get? letter = second.get? letter

theorem Bindings.AgreeOn.set {letters : Letter → Prop} {first second : Bindings}
    (h : first.AgreeOn letters second) (letter : Letter) (value : Binary64) :
    (first.set letter value).AgreeOn letters (second.set letter value) := by
  intro other hother
  by_cases heq : other = letter
  · rw [heq, get?_set_self, get?_set_self]
  · rw [get?_set_of_ne first value heq, get?_set_of_ne second value heq]
    exact h other hother

-- A name that is no letter is unassigned on both sides.
theorem Bindings.AgreeOn.lookup_eq {letters : Letter → Prop} {first second : Bindings}
    (h : first.AgreeOn letters second) {name : String}
    (hname : ∀ letter, Letter.ofName? name = some letter → letters letter) :
    first.lookup name = second.lookup name := by
  cases hletter : Letter.ofName? name with
  | none => rw [lookup_of_ofName?_eq_none first hletter, lookup_of_ofName?_eq_none second hletter]
  | some letter =>
      have hentry := h letter (hname letter hletter)
      simp only [lookup, find?, hletter, Option.bind_some, hentry]

namespace Machine

-- A letter is one of the words of a line.
def Mentions (line : String) (letter : Letter) : Prop := letter.name ∈ Text.words line

instance (line : String) (letter : Letter) : Decidable (Mentions line letter) :=
  inferInstanceAs (Decidable (letter.name ∈ Text.words line))

theorem mentions_of_mem_tokens {line : String} {letter : Letter}
    (h : .variable letter ∈ tokens line) : Mentions line letter := by
  obtain ⟨word, hword, hread⟩ := List.mem_map.mp h
  have hknown : (Token.variable letter).IsKnown := trivial
  have htext : word = letter.name := (Token.read_eq_iff hknown).mp hread
  rwa [htext] at hword

-- Every name on the stack is one of the letters or no letter at all.
def Names (letters : Letter → Prop) (stack : List Cell) : Prop :=
  ∀ cell ∈ stack, ∀ letter, target? cell = some letter → letters letter

theorem Names.cons {letters : Letter → Prop} {stack : List Cell} {cell : Cell}
    (h : Names letters stack) (hcell : ∀ letter, target? cell = some letter → letters letter) :
    Names letters (cell :: stack) := by
  intro other hother
  rcases List.mem_cons.mp hother with rfl | hother
  · exact hcell
  · exact h other hother

-- Two machines in lock step: one stack for both, and the names on it read the same.
structure Alike (letters : Letter → Prop) (first second : Machine) : Prop where
  stack : first.stack = second.stack
  names : Names letters first.stack
  bindings : first.bindings.AgreeOn letters second.bindings

theorem Alike.resolve_eq {letters : Letter → Prop} {first second : Machine}
    (h : first.Alike letters second) (cell : Cell) (hcell : cell ∈ first.stack) :
    first.resolve cell = second.resolve cell := by
  cases cell with
  | number value => rfl
  | foreign text => rfl
  | reference name => exact h.bindings.lookup_eq (h.names _ hcell)

theorem Alike.top_eq {letters : Letter → Prop} {first second : Machine}
    (h : first.Alike letters second) : first.top = second.top := by
  unfold top
  rw [← h.stack]
  cases hstack : first.stack with
  | nil => rfl
  | cons cell rest =>
      have hcell := h.resolve_eq cell (by simp [hstack])
      simp only [hcell]

end Machine

-- Two reactions that cannot be told apart, but for letters that are none of those given.
structure Reaction.Alike (letters : Letter → Prop) (first second : Reaction) : Prop where
  machine : first.machine.Alike letters second.machine
  failure : first.failure = second.failure
  records : first.records = second.records

structure Evaluation.Alike (letters : Letter → Prop) (first second : Evaluation) : Prop where
  machine : first.machine.Alike letters second.machine
  result : first.result = second.result
  records : first.records = second.records

namespace Machine

theorem store_alike {letters : Letter → Prop} {first second : Machine}
    (h : first.Alike letters second) : first.store.Alike letters second.store := by
  obtain ⟨stack, bindings⟩ := first
  obtain ⟨_, others⟩ := second
  obtain rfl := h.stack
  have hnames := h.names
  match stack with
  | [] => exact ⟨h, rfl, rfl⟩
  | [cell] => exact ⟨h, rfl, rfl⟩
  | source :: target :: rest =>
      have hsource := h.resolve_eq source (by simp)
      have hrest : Names letters rest := fun cell hc => hnames cell (by simp_all)
      simp only [store, ← hsource]
      cases target? target with
      | none => exact ⟨⟨rfl, hrest, h.bindings⟩, rfl, rfl⟩
      | some letter =>
          cases resolve ⟨source :: target :: rest, bindings⟩ source with
          | error error => exact ⟨⟨rfl, hrest, h.bindings⟩, rfl, rfl⟩
          | ok value => exact ⟨⟨rfl, hrest, h.bindings.set letter value⟩, rfl, rfl⟩

theorem push_alike {letters : Letter → Prop} {first second : Machine} {cell : Cell}
    (h : first.Alike letters second) (hcell : ∀ letter, target? cell = some letter → letters letter) :
    (first.push cell).Alike letters (second.push cell) where
  machine := ⟨congrArg (cell :: ·) h.stack, h.names.cons hcell, h.bindings⟩
  failure := rfl
  records := rfl

theorem Alike.reset {letters : Letter → Prop} {first second : Machine}
    (h : first.bindings.AgreeOn letters second.bindings) :
    first.reset.Alike letters second.reset :=
  ⟨rfl, fun _ hcell => absurd hcell (by simp [Machine.reset]), h⟩

theorem mem_words_of_assign_mem_tokens {line : String} (h : .assign ∈ tokens line) :
    Token.assignMark ∈ Text.words line := by
  obtain ⟨word, hword, hread⟩ := List.mem_map.mp h
  have hknown : Token.assign.IsKnown := trivial
  have htext : word = Token.assignMark := (Token.read_eq_iff hknown).mp hread
  rwa [htext] at hword

variable [Power]

theorem operate_alike {letters : Letter → Prop} {first second : Machine} (op : Operator)
    (h : first.Alike letters second) :
    (first.operate op).Alike letters (second.operate op) := by
  obtain ⟨stack, bindings⟩ := first
  obtain ⟨_, others⟩ := second
  obtain rfl := h.stack
  have hnames := h.names
  match stack with
  | [] => exact ⟨h, rfl, rfl⟩
  | [cell] => exact ⟨h, rfl, rfl⟩
  | right :: left :: rest =>
      have hright := h.resolve_eq right (by simp)
      have hleft := h.resolve_eq left (by simp)
      have hpopped : Names letters (left :: rest) := fun cell hc => hnames cell (by simp_all)
      have hrest : Names letters rest := fun cell hc => hnames cell (by simp_all)
      simp only [operate, ← hright, ← hleft]
      cases resolve ⟨right :: left :: rest, bindings⟩ right with
      | error error => exact ⟨⟨rfl, hpopped, h.bindings⟩, rfl, rfl⟩
      | ok rhs =>
          cases resolve ⟨right :: left :: rest, bindings⟩ left with
          | error error => exact ⟨⟨rfl, hrest, h.bindings⟩, rfl, rfl⟩
          | ok lhs =>
              simp only
              cases op.compute? lhs rhs with
              | none => exact ⟨⟨rfl, hrest, h.bindings⟩, rfl, rfl⟩
              | some value =>
                  have hvalue : Names letters (.number value :: rest) :=
                    hrest.cons (by simp [target?])
                  exact ⟨⟨rfl, hvalue, h.bindings⟩, rfl, rfl⟩

theorem step_alike {letters : Letter → Prop} {first second : Machine} (token : Token)
    (h : first.Alike letters second) (htoken : ∀ letter, token = .variable letter → letters letter) :
    (first.step token).Alike letters (second.step token) := by
  cases token with
  | blank => exact ⟨h, rfl, rfl⟩
  | number numeral => exact push_alike h (by simp [target?])
  | operator op => exact operate_alike op h
  | assign => exact store_alike h
  | «variable» letter =>
      refine push_alike h fun other hother => htoken other ?_
      rw [target?, Letter.ofName?_name] at hother
      rw [Option.some.inj hother]
  | unknown text => exact ⟨h, rfl, rfl⟩

theorem run_alike {letters : Letter → Prop} {first second : Machine} {tokens : List Token}
    (h : first.Alike letters second) (htokens : ∀ letter, .variable letter ∈ tokens → letters letter) :
    (first.run tokens).Alike letters (second.run tokens) := by
  induction tokens generalizing first second with
  | nil => exact ⟨h, rfl, rfl⟩
  | cons token rest ih =>
      have hstep := step_alike token h
        (fun letter hletter => htokens letter (by simp [hletter]))
      have hrest := ih hstep.machine (fun letter hletter => htokens letter (by simp [hletter]))
      -- both stop at this token or neither does
      rw [run_cons, run_cons, Reaction.andThen, Reaction.andThen, ← hstep.failure, ← hstep.records]
      cases hfailure : (first.step token).failure with
      | some error => exact hstep
      | none => exact ⟨hrest.machine, hrest.failure, by rw [hrest.records]⟩

-- The names stay within the letters, by the above for a machine and itself.
theorem Names.step {letters : Letter → Prop} {machine : Machine} (token : Token)
    (h : Names letters machine.stack) (htoken : ∀ letter, token = .variable letter → letters letter) :
    Names letters (machine.step token).machine.stack := by
  have hself : machine.Alike letters machine := ⟨rfl, h, fun _ _ => rfl⟩
  exact (step_alike token hself htoken).machine.names

-- A letter that is never named keeps its entry, or has none as before.
theorem get?_run_of_not {letters : Letter → Prop} {machine : Machine} {tokens : List Token}
    {letter : Letter} (hnames : Names letters machine.stack)
    (htokens : ∀ letter, .variable letter ∈ tokens → letters letter) (hletter : ¬letters letter) :
    (machine.run tokens).machine.bindings.get? letter = machine.bindings.get? letter := by
  refine (run_induction (motive := fun later => Names letters later.stack ∧
    later.bindings.get? letter = machine.bindings.get? letter) ⟨hnames, rfl⟩ ?_).2
  rintro token htoken later ⟨hlater, hsame⟩
  refine ⟨hlater.step token fun other hother => htokens other (hother ▸ htoken), ?_⟩
  rcases later.bindings_step token with hbindings | ⟨other, value, -, -, hbinds, hset⟩
  · rw [hbindings, hsame]
  · -- what is assigned to was named on the stack
    obtain ⟨source, below, hstack, -⟩ := hbinds
    have hother : letters other :=
      hlater (.reference other.name) (by simp [hstack]) other (by simp [target?])
    have hne : letter ≠ other := fun heq => hletter (heq ▸ hother)
    rw [hset, Bindings.get?_set_of_ne later.bindings value hne, hsame]

-- A line comes to the same on all machines that agree on its letters, and they agree on them after
-- it.
theorem evaluate_alike {letters : Letter → Prop} {first second : Machine} (line : String)
    (h : first.bindings.AgreeOn letters second.bindings)
    (hline : ∀ letter, Mentions line letter → letters letter) :
    (first.evaluate line).Alike letters (second.evaluate line) := by
  have hrun := run_alike (Alike.reset h)
    (fun letter hletter => hline letter (mentions_of_mem_tokens hletter))
  have htop := hrun.machine.top_eq
  refine ⟨hrun.machine, ?_, ?_⟩
  · simp only [evaluate, hrun.failure, htop]
  · simp only [evaluate, hrun.failure, hrun.records, htop]

theorem get?_evaluate_of_not_mentions (machine : Machine) {line : String} {letter : Letter}
    (h : ¬Mentions line letter) :
    (machine.evaluate line).machine.bindings.get? letter = machine.bindings.get? letter := by
  have hnames : Names (Mentions line) machine.reset.stack :=
    fun _ hcell => absurd hcell (by simp [reset])
  exact get?_run_of_not hnames (fun _ hletter => mentions_of_mem_tokens hletter) h

-- Nothing is written where there is no `=`.
theorem bindings_run_of_no_assign (machine : Machine) {tokens : List Token}
    (h : .assign ∉ tokens) : (machine.run tokens).machine.bindings = machine.bindings := by
  refine run_induction (motive := fun later => later.bindings = machine.bindings) rfl ?_
  intro token htoken later hlater
  rcases later.bindings_step token with hsame | ⟨_, _, hassign, -⟩
  · rw [hsame, hlater]
  · exact absurd (hassign ▸ htoken) h

-- The letters that a line may write: the letters in it, if it has a `=` at all.
def Writes (line : String) (letter : Letter) : Prop :=
  Token.assignMark ∈ Text.words line ∧ Mentions line letter

instance (line : String) (letter : Letter) : Decidable (Writes line letter) :=
  inferInstanceAs (Decidable (_ ∧ _))

theorem get?_evaluate_of_not_writes (machine : Machine) {line : String} {letter : Letter}
    (h : ¬Writes line letter) :
    (machine.evaluate line).machine.bindings.get? letter = machine.bindings.get? letter := by
  by_cases hmentions : Mentions line letter
  · have hassign : .assign ∉ tokens line :=
      fun hmem => h ⟨mem_words_of_assign_mem_tokens hmem, hmentions⟩
    exact congrArg (·.get? letter) (machine.reset.bindings_run_of_no_assign hassign)
  · exact machine.get?_evaluate_of_not_mentions hmentions

end Machine

-- What a line does is decided by the letters in it: it reads no others and it changes no others,
-- however it ends, and whatever was on the stack before.
theorem evaluate_confined [Power] (line : String) :
    (∀ first second : Machine,
      first.bindings.AgreeOn (Machine.Mentions line) second.bindings →
        (first.evaluate line).result = (second.evaluate line).result ∧
        (first.evaluate line).machine.stack = (second.evaluate line).machine.stack ∧
        (first.evaluate line).machine.bindings.AgreeOn (Machine.Mentions line)
          (second.evaluate line).machine.bindings ∧
        (first.evaluate line).records = (second.evaluate line).records) ∧
    (∀ (machine : Machine) (letter : Letter), ¬Machine.Mentions line letter →
      (machine.evaluate line).machine.bindings.get? letter = machine.bindings.get? letter) := by
  constructor
  · intro first second hagree
    have halike := Machine.evaluate_alike line hagree fun _ => id
    exact ⟨halike.result, halike.machine.stack, halike.machine.bindings, halike.records⟩
  · exact fun machine _ hletter => machine.get?_evaluate_of_not_mentions hletter

-- The line has assigned to B by the time it fails.
theorem evaluate_confined_half_done :
    let line := "B A = B 0 /"
    let one := Binary64.ofInt 1
    let first : Machine := ⟨[.foreign "left over"], (Bindings.empty.set ⟨0⟩ one).set ⟨3⟩ one⟩
    let second : Machine := ⟨[], Bindings.empty.set ⟨0⟩ one⟩
    first.bindings.AgreeOn (Machine.Mentions line) second.bindings ∧
      ¬Machine.Mentions line ⟨3⟩ ∧
      (first.evaluate line).result = (second.evaluate line).result ∧
      (first.evaluate line).machine.bindings.get? ⟨3⟩ = some one := by
  intro line one first second
  have hother : ¬Machine.Mentions line ⟨3⟩ := by decide
  have hagree : first.bindings.AgreeOn (Machine.Mentions line) second.bindings := by
    intro letter hletter
    have hne : letter ≠ ⟨3⟩ := by
      rintro rfl
      exact hother hletter
    exact Bindings.get?_set_of_ne second.bindings one hne
  have hconfined := evaluate_confined line
  refine ⟨hagree, hother, (hconfined.1 first second hagree).1, ?_⟩
  rw [hconfined.2 first ⟨3⟩ hother]
  exact Bindings.get?_set_self second.bindings ⟨3⟩ one

end PostfixCalc
