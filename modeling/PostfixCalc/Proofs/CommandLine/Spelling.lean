import PostfixCalc.Proofs.CommandLine.Options
import PostfixCalc.Proofs.Logged

namespace PostfixCalc.CommandLine

-- Arguments that give some expressions in their order. An expression is joined to its flag by an
-- equals sign, or stands by itself behind the flag if it does not begin with a minus sign. The
-- prompt may be hidden at any place between them.
inductive Spells : List String → List String → Prop where
  | nil : Spells [] []
  | noPrompt (arguments values : List String) (hrest : Spells arguments values) :
      Spells ("--no_prompt" :: arguments) values
  | joined (value : String) (arguments values : List String) (hrest : Spells arguments values) :
      Spells (("--expression=" ++ value) :: arguments) (value :: values)
  | apart (flag value : String) (arguments values : List String)
      (hflag : flag = "-e" ∨ flag = "--expression") (hvalue : value.toList.head? ≠ some '-')
      (hrest : Spells arguments values) : Spells (flag :: value :: arguments) (value :: values)

theorem roleOf_noPrompt : roleOf "--no_prompt" = .ok (.flagged .noPrompt none) := rfl

theorem roleOf_expression {flag : String} (hflag : flag = "-e" ∨ flag = "--expression") :
    roleOf flag = .ok (.flagged .expression none) := by
  obtain rfl | rfl := hflag <;> rfl

-- The flag ends at the first equals sign, whatever comes behind it.
theorem roleOf_joined (value : String) :
    roleOf ("--expression=" ++ value) = .ok (.flagged .expression (some value.toList)) := by
  have hchars : ("--expression=" ++ value).toList = "--expression".toList ++ '=' :: value.toList := by
    rw [String.toList_append]
    rfl
  have hflag : ∀ c ∈ "--expression".toList, (c != '=') = true := List.all_eq_true.mp rfl
  have hhead : ("--expression=" ++ value).toList.takeWhile (· != '=') = "--expression".toList := by
    rw [hchars, List.takeWhile_append_of_pos hflag, List.takeWhile_cons_of_neg (by decide),
      List.append_nil]
  have hvalue : (("--expression=" ++ value).toList.dropWhile (· != '=')).tail? =
      some value.toList := by
    rw [hchars, List.dropWhile_append_of_pos hflag, List.dropWhile_cons_of_neg (by decide)]
    rfl
  have hspelling : Flag.ofSpelling? "--expression".toList = some .expression := rfl
  have hlong : roleOf ("--expression=" ++ value) = roleOfLong ("--expression=" ++ value)
      ('-' :: ("expression".toList ++ '=' :: value.toList)) := by
    rw [roleOf, hchars]
    rfl
  rw [hlong, roleOfLong, hhead, hvalue, hspelling]

theorem roleOf_plain {value : String} (hvalue : value.toList.head? ≠ some '-') :
    roleOf value = .ok .plain := by
  unfold roleOf
  split
  · rename_i hchars
    exact absurd (by rw [hchars]; rfl) hvalue
  · rename_i hchars
    exact absurd (by rw [hchars]; rfl) hvalue
  · rfl

theorem rolesOf_cons {argument : String} {rest : List String} {role : Role}
    {roles : List (String × Role)} (hargument : argument ≠ "--") (hrole : roleOf argument = .ok role)
    (hrest : rolesOf rest = .ok roles) :
    rolesOf (argument :: rest) = .ok ((argument, role) :: roles) := by
  simp only [rolesOf, hargument, ite_false, hrole, hrest]

theorem ne_dashes_of_joined (value : String) : "--expression=" ++ value ≠ "--" := by
  intro h
  have hlength := congrArg (·.toList.length) h
  simp at hlength

theorem cluster?_expression (edition : Edition) :
    (Role.flagged .expression none).cluster? edition = some (.ok ⟨[], some .expression⟩) := rfl

-- Only a double dash may be no text.
theorem text?_toList {edition : Edition} {value : String} (hvalue : edition = .early → value ≠ "--") :
    edition.text? value.toList = some value := by
  have hchars : ¬(edition = .early ∧ value.toList = ['-', '-']) := by
    rintro ⟨hedition, hchars⟩
    exact hvalue hedition (String.toList_inj.mp hchars)
  rw [Edition.text?, if_neg hchars, String.ofList_toList]

theorem cluster?_joined {edition : Edition} {value : String}
    (hvalue : edition = .early → value ≠ "--") :
    (Role.flagged .expression (some value.toList)).cluster? edition =
      some (.ok ⟨[.action (.addExpression (some value))], none⟩) := by
  simp [Role.cluster?, Cluster.ofValue, Flag.takesValue, Flag.action, text?_toList hvalue]

-- Such arguments add their expressions to those that are there, and nothing ends the call before.
theorem Spells.performAll {arguments values : List String} (h : Spells arguments values)
    {edition : Edition} (hvalues : edition = .early → "--" ∉ values) :
    ∃ roles, rolesOf arguments = .ok roles ∧ ∀ options : Options, ∃ hidden,
      options.performAll [] (itemsOf edition roles) =
        .ok ⟨options.expressions ++ values.map some, options.level, hidden⟩ := by
  induction h with
  | nil => exact ⟨[], rfl, fun options => ⟨options.promptHidden, by simp [itemsOf, Options.performAll]⟩⟩
  | noPrompt arguments values hrest ih =>
      obtain ⟨roles, hroles, hperform⟩ := ih hvalues
      refine ⟨_, rolesOf_cons (by decide) roleOf_noPrompt hroles, fun options => ?_⟩
      exact hperform { options with promptHidden := true }
  | joined value arguments values hrest ih =>
      simp only [List.mem_cons, not_or] at hvalues
      obtain ⟨roles, hroles, hperform⟩ := ih fun hedition => (hvalues hedition).2
      refine ⟨_, rolesOf_cons (ne_dashes_of_joined value) (roleOf_joined value) hroles,
        fun options => ?_⟩
      obtain ⟨hidden, hlater⟩ :=
        hperform { options with expressions := options.expressions ++ [some value] }
      refine ⟨hidden, ?_⟩
      rw [itemsOf_complete _ (cluster?_joined fun hedition => Ne.symm (hvalues hedition).1)]
      simpa [Options.performAll, Options.perform] using hlater
  | apart flag value arguments values hflag hvalue hrest ih =>
      simp only [List.mem_cons, not_or] at hvalues
      obtain ⟨roles, hroles, hperform⟩ := ih fun hedition => (hvalues hedition).2
      have hdashes : flag ≠ "--" := by rcases hflag with rfl | rfl <;> decide
      have hplain : value ≠ "--" := by
        rintro rfl
        exact hvalue rfl
      refine ⟨_, rolesOf_cons hdashes (roleOf_expression hflag)
        (rolesOf_cons hplain (roleOf_plain hvalue) hroles), fun options => ?_⟩
      obtain ⟨hidden, hlater⟩ :=
        hperform { options with expressions := options.expressions ++ [some value] }
      refine ⟨hidden, ?_⟩
      rw [itemsOf_valued _ (cluster?_expression edition)]
      simpa [Options.performAll, Options.perform, Flag.action] using hlater

theorem Spells.ofArguments {arguments values : List String} (h : Spells arguments values)
    {edition : Edition} (hvalues : edition = .early → "--" ∉ values) :
    ∃ hidden, Options.ofArguments edition arguments =
      .ok ⟨values.map some, some .standard, hidden⟩ := by
  obtain ⟨roles, hroles, hperform⟩ := h.performAll hvalues
  obtain ⟨hidden, hoptions⟩ := hperform .standard
  refine ⟨hidden, ?_⟩
  rw [Options.ofArguments, hroles]
  exact hoptions

theorem front_texts (values : List String) : front (values.map some) = values := by
  induction values with
  | nil => rfl
  | cons value values ih => rw [List.map_cons, front, ih]

-- What the log says of a batch is hidden at the standard level.
theorem start_of_expressions [Power] {edition : Edition} {arguments values : List String}
    {hidden : Bool} (hoptions : Options.ofArguments edition arguments =
      .ok ⟨values.map some, some .standard, hidden⟩) (hne : values ≠ []) (terminal : Bool) :
    start edition arguments terminal = .finished ⟨(Machine.initial.batch values).exitCode,
      Console.shown (Machine.initial.batch values).events⟩ := by
  have htexts : none ∉ values.map some := by simp
  simp only [start, hoptions, batch, htexts, List.map_eq_nil_iff, hne, ite_false, front_texts,
    Console.shown, List.filter_cons, Event.visibleAt_record, Bool.false_eq_true]

theorem exists_spells (values : List String) : ∃ arguments, Spells arguments values := by
  induction values with
  | nil => exact ⟨[], .nil⟩
  | cons value values ih =>
      obtain ⟨arguments, hrest⟩ := ih
      exact ⟨_, .joined value arguments values hrest⟩

-- All expressions can be given as arguments, but for the double dash in the early edition. They are
-- evaluated as one batch, and what is shown of it and its exit code are those of the call. The
-- input is not waited for, and neither it nor the terminal makes a difference. The same is shown if
-- the log is written as it goes.
theorem expressions_spelled [Power] (edition : Edition) (values : List String) (hne : values ≠ [])
    (hvalues : edition = .early → "--" ∉ values) :
    let batch := Machine.initial.batch values
    let outcome : Outcome := ⟨batch.exitCode, Console.shown batch.events⟩
    (∃ arguments, Spells arguments values) ∧
    ∀ arguments, Spells arguments values → ∀ terminal,
      start edition arguments terminal = .finished outcome ∧
      ∀ input, run edition arguments input terminal = outcome ∧
        Logged.run edition arguments input terminal = outcome := by
  intro batch outcome
  refine ⟨exists_spells values, fun arguments hspells terminal => ?_⟩
  obtain ⟨hidden, hoptions⟩ := hspells.ofArguments hvalues
  have hstart := start_of_expressions hoptions hne terminal
  have hrun (input : String) : run edition arguments input terminal = outcome := by
    rw [run, hstart]
  exact ⟨hstart, fun input => ⟨hrun input, (Logged.run_eq _ _ _ _).trans (hrun input)⟩⟩

-- Among the expressions are a flag with an equals sign in it, a double dash with more behind it and
-- an empty text. None of them is taken for an option.
theorem expressions_spelled_like_flags :
    let values := ["A 2 =", "--expression=A", "-- 1", "", "A A *"]
    let arguments := ["--no_prompt", "-e", "A 2 =", "--expression=--expression=A",
      "--expression=-- 1", "--no_prompt", "--expression", "", "--expression=A A *"]
    let outcome : Outcome := ⟨1, [.error "Error: Unknown token: --expression=A\n",
      .error "Error: Unknown token: --\n", .output "[4]\n"]⟩
    values ≠ [] ∧ "--" ∉ values ∧ Spells arguments values ∧
      run .early arguments "3\n" true = outcome ∧ run .late arguments "" false = outcome := by
  intro values arguments outcome
  have hspells : Spells arguments values :=
    .noPrompt _ _ <|
    .apart "-e" "A 2 =" _ _ (.inl rfl) (by decide) <|
    .joined "--expression=A" _ _ <|
    .joined "-- 1" _ _ <|
    .noPrompt _ _ <|
    .apart "--expression" "" _ _ (.inr rfl) (by decide) <|
    .joined "A A *" _ _ .nil
  have hne : values ≠ [] := by simp [values]
  have hvalues : "--" ∉ values := by decide
  have houtcome : (⟨(Machine.initial.batch values).exitCode,
      Console.shown (Machine.initial.batch values).events⟩ : Outcome) = outcome := by
    decide +kernel
  have hcall (edition : Edition) :=
    (expressions_spelled edition values hne fun _ => hvalues).2 arguments hspells
  refine ⟨hne, hvalues, hspells, ?_, ?_⟩
  · rw [((hcall .early true).2 "3\n").1, houtcome]
  · rw [((hcall .late false).2 "").1, houtcome]

-- The late edition takes a double dash for the text that it is, and the early one breaks off at it.
example :
    run .late ["-e", "A 2 =", "--expression=--"] "" false =
        ⟨1, [.error "Error: Unknown token: --\n"]⟩ ∧
      run .early ["-e", "A", "--expression=--"] "" false =
        ⟨1, [.error "Error: Unassigned variable: A\n", .error Crash.expression.report]⟩ := by
  decide +kernel

end PostfixCalc.CommandLine
