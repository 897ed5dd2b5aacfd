import PostfixCalc.Proofs.CommandLine.Options
import PostfixCalc.Proofs.Logged

namespace PostfixCalc

theorem Level.ofName?_name (level : Level) : ofName? level.name = some level := by
  cases level <;> decide

namespace CommandLine

-- An argument that names the level: its value stands behind an equals sign, or is still to come.
def namesLevel (argument : String) : Bool :=
  match roleOf argument with
  | .ok (.flagged .logLevel _) => true
  | _ => false

theorem roleOf_logLevel : roleOf "--log_level" = .ok (.flagged .logLevel none) := rfl

theorem roleOf_name (level : Level) : roleOf level.name = .ok .plain := by
  cases level <;> rfl

theorem name_ne_dashes (level : Level) : level.name ≠ "--" := by
  cases level <;> decide

-- The two arguments that set the level.
def levelRoles (level : Level) : List (String × Role) :=
  [("--log_level", .flagged .logLevel none), (level.name, .plain)]

theorem rolesOf_level (level : Level) (after : List String) :
    rolesOf ("--log_level" :: level.name :: after) =
      (rolesOf after).map (levelRoles level ++ ·) := by
  have hdashes : "--log_level" ≠ "--" := by decide
  simp only [rolesOf, hdashes, name_ne_dashes, ite_false, roleOf_logLevel, roleOf_name]
  cases rolesOf after <;> rfl

section

variable (edition : Edition)

theorem itemsOf_level (level : Level) (later : List (String × Role)) :
    itemsOf edition (levelRoles level ++ later) =
      .action (.setLevel (some level.name)) :: itemsOf edition later := by
  simp [levelRoles, itemsOf, Role.cluster?, Cluster.ofFlag, Flag.takesValue, Flag.action]

-- The items of some roles with the level behind them do not depend on the level up to there. They
-- may end before: with a mistake, or with a flag that lacks its value.
def UpToLevel (first : List (String × Role)) : Prop :=
  (∃ items mistake, ∀ level later,
    itemsOf edition (first ++ (levelRoles level ++ later)) = items ++ [.mistake mistake]) ∨
  ∃ items, ∀ level later, itemsOf edition (first ++ (levelRoles level ++ later)) =
    items ++ .action (.setLevel (some level.name)) :: itemsOf edition later

theorem UpToLevel.of_prefix {edition : Edition} {first rest : List (String × Role)} (done : List Item)
    (hfirst : ∀ later, itemsOf edition (first ++ later) = done ++ itemsOf edition (rest ++ later))
    (hrest : UpToLevel edition rest) : UpToLevel edition first := by
  obtain ⟨items, mistake, hitems⟩ | ⟨items, hitems⟩ := hrest
  · refine .inl ⟨done ++ items, mistake, fun level later => ?_⟩
    rw [hfirst, hitems, List.append_assoc]
  · refine .inr ⟨done ++ items, fun level later => ?_⟩
    rw [hfirst, hitems, List.append_assoc]

theorem upToLevel (first : List (String × Role)) : UpToLevel edition first := by
  induction first using itemsOf.induct edition with
  | case1 => exact .inr ⟨[], itemsOf_level edition⟩
  | case2 argument role rest hrole ih =>
      exact ih.of_prefix [_] fun later => itemsOf_unclaimed argument hrole (rest ++ later)
  | case3 argument role rest mistake hrole =>
      exact .inl ⟨[], mistake, fun level later => itemsOf_mistake argument hrole _⟩
  | case4 argument role rest items hrole ih =>
      exact ih.of_prefix _ fun later => itemsOf_complete argument hrole (rest ++ later)
  | case5 argument role items flag hrole value others ih =>
      exact ih.of_prefix _ fun later => itemsOf_valued argument hrole value (others ++ later)
  | case6 argument role rest items flag hrole hrest =>
      refine .inl ⟨[], _, fun level later => itemsOf_unvalued argument hrole ?_⟩
      intro value others hplain
      cases rest with
      | nil => simp [levelRoles] at hplain
      | cons entry rest =>
          obtain ⟨hentry, -⟩ := List.cons.inj hplain
          exact hrest value rest (by rw [hentry])

end

def Action.KeepsLevel (action : Action) : Prop := ∀ text, action ≠ .setLevel text

def Item.KeepsLevel (item : Item) : Prop := ∀ text, item ≠ .action (.setLevel text)

theorem perform_level {action : Action} (haction : action.KeepsLevel) (options : Options)
    (level : Option Level) : Options.perform { options with level := level } action =
      (options.perform action).map ({ · with level := level }) := by
  cases action with
  | showHelp => rfl
  | hidePrompt => rfl
  | addExpression text => rfl
  | setLevel text => exact absurd rfl (haction text)

-- A level that is set stays to the end, if nothing sets another one.
theorem performAll_level {items : List Item} (hitems : ∀ item ∈ items, item.KeepsLevel)
    (options : Options) (unclaimed : List String) (level : Option Level) :
    Options.performAll { options with level := level } unclaimed items =
      (options.performAll unclaimed items).map ({ · with level := level }) := by
  induction items generalizing options unclaimed with
  | nil =>
      unfold Options.performAll
      split <;> rfl
  | cons item items ih =>
      have hrest := ih fun other hother => hitems other (by simp [hother])
      cases item with
      | unclaimed text => exact hrest options (unclaimed ++ [text])
      | mistake mistake => rfl
      | action action =>
          have haction : action.KeepsLevel := by
            rintro text rfl
            exact hitems _ (by simp) text rfl
          rw [Options.performAll, perform_level haction, Options.performAll]
          cases options.perform action with
          | error exit => rfl
          | ok next => exact hrest next unclaimed

-- A short flag is never the one for the level.
theorem ofSpelling?_short_ne {c : Char} {flag : Flag} (h : Flag.ofSpelling? ['-', c] = some flag) :
    flag ≠ .logLevel := by
  obtain ⟨entry, hentry, rfl⟩ := Option.map_eq_some_iff.mp h
  have hlength : entry.1.toList.length = 2 := by
    have hspelling := List.find?_some hentry
    rw [of_decide_eq_true hspelling]
    rfl
  have hlong : ∀ entry ∈ spellings, entry.1.toList.length = 2 → entry.2 ≠ .logLevel := by decide
  exact hlong entry (List.mem_of_find?_eq_some hentry) hlength

-- A role that brings no level with it.
def Role.KeepsLevel : Role → Prop
  | .plain | .unknown => True
  | .flagged flag _ | .joined flag _ => flag ≠ .logLevel

theorem Flag.keepsLevel_action {flag : Flag} (hflag : flag ≠ .logLevel) (text : Option String) :
    (Item.action (flag.action text)).KeepsLevel := by
  intro other
  cases flag <;> simp_all [Flag.action]

-- All that a cluster asks for, or still waits for, leaves the level alone.
structure Cluster.KeepsLevel (cluster : Cluster) : Prop where
  items : ∀ item ∈ cluster.items, item.KeepsLevel
  pending : ∀ flag ∈ cluster.pending, flag ≠ .logLevel

section

variable {edition : Edition} {flag : Flag} {text : List Char} {cluster : Cluster}

theorem Cluster.keepsLevel_ofFlag (hflag : flag ≠ .logLevel) : (ofFlag flag).KeepsLevel := by
  unfold ofFlag
  split
  · exact ⟨by simp, by simpa using hflag⟩
  · exact ⟨by simpa using Flag.keepsLevel_action hflag none, by simp⟩

theorem Cluster.keepsLevel_ofValue (hflag : flag ≠ .logLevel)
    (h : ofValue edition flag text = .ok cluster) : cluster.KeepsLevel := by
  unfold ofValue at h
  split at h
  · obtain rfl := Except.ok.inj h
    exact ⟨by simpa using Flag.keepsLevel_action hflag (edition.text? text), by simp⟩
  · exact absurd h (by simp)

-- Only short flags follow in one argument.
theorem Cluster.keepsLevel_ofJoined (hflag : flag ≠ .logLevel)
    (h : ofJoined edition flag text = .ok cluster) : cluster.KeepsLevel := by
  induction text generalizing flag cluster with
  | nil =>
      obtain rfl := Except.ok.inj h
      exact keepsLevel_ofFlag hflag
  | cons c rest ih =>
      have haction := Flag.keepsLevel_action hflag none
      unfold ofJoined at h
      split at h
      · exact keepsLevel_ofValue hflag h
      split at h
      · exact keepsLevel_ofValue hflag h
      split at h
      · rename_i next hnext
        split at h
        · exact absurd h (by simp)
        · rename_i inner hinner
          obtain rfl := Except.ok.inj h
          have hrest := ih (ofSpelling?_short_ne hnext) hinner
          exact ⟨List.forall_mem_cons.mpr ⟨haction, hrest.items⟩, hrest.pending⟩
      · split at h
        · exact absurd h (by simp)
        · obtain rfl := Except.ok.inj h
          exact ⟨by simpa [Item.KeepsLevel] using haction, by simp⟩

theorem Cluster.keepsLevel_ofShort (hflag : flag ≠ .logLevel)
    (h : ofShort edition flag text = .ok cluster) : cluster.KeepsLevel := by
  unfold ofShort at h
  split at h
  · exact keepsLevel_ofValue hflag h
  · split at h
    · exact keepsLevel_ofValue hflag h
    · exact keepsLevel_ofJoined hflag h
  · exact keepsLevel_ofJoined hflag h

theorem Role.keepsLevel_cluster? {role : Role} (hrole : role.KeepsLevel)
    (h : role.cluster? edition = some (.ok cluster)) : cluster.KeepsLevel := by
  cases role with
  | plain => exact absurd h (by simp [cluster?])
  | unknown => exact absurd h (by simp [cluster?])
  | joined flag text => exact Cluster.keepsLevel_ofShort hrole (Option.some.inj h)
  | flagged flag value =>
      cases value with
      | none =>
          obtain rfl := Except.ok.inj (Option.some.inj h)
          exact Cluster.keepsLevel_ofFlag hrole
      | some value => exact Cluster.keepsLevel_ofValue hrole (Option.some.inj h)

theorem keepsLevel_itemsOf {roles : List (String × Role)}
    (hroles : ∀ entry ∈ roles, entry.2.KeepsLevel) :
    ∀ item ∈ itemsOf edition roles, item.KeepsLevel := by
  induction roles using itemsOf.induct edition with
  | case1 => simp [itemsOf]
  | case2 argument role rest hrole ih =>
      rw [itemsOf_unclaimed argument hrole, List.forall_mem_cons]
      refine ⟨fun text => by simp, ih fun entry hentry => hroles entry (by simp [hentry])⟩
  | case3 argument role rest mistake hrole =>
      rw [itemsOf_mistake argument hrole, List.forall_mem_singleton]
      exact fun text => by simp
  | case4 argument role rest items hrole ih =>
      have hcluster := Role.keepsLevel_cluster? (hroles (argument, role) List.mem_cons_self) hrole
      rw [itemsOf_complete argument hrole, List.forall_mem_append]
      exact ⟨hcluster.items, ih fun entry hentry => hroles entry (by simp [hentry])⟩
  | case5 argument role items flag hrole value others ih =>
      have hcluster := Role.keepsLevel_cluster? (hroles (argument, role) List.mem_cons_self) hrole
      have hvalue := Flag.keepsLevel_action (hcluster.pending flag rfl) (some value)
      rw [itemsOf_valued argument hrole, List.forall_mem_append, List.forall_mem_append,
        List.forall_mem_singleton]
      exact ⟨⟨hcluster.items, hvalue⟩, ih fun entry hentry => hroles entry (by simp [hentry])⟩
  | case6 argument role rest items flag hrole hrest =>
      rw [itemsOf_unvalued argument hrole hrest, List.forall_mem_singleton]
      exact fun text => by simp

end

-- Only what follows a short flag is joined to it.
theorem joined_ne {argument : String} {flag : Flag} {text : List Char}
    (h : roleOf argument = .ok (.joined flag text)) : flag ≠ .logLevel := by
  have hother (afterMinus : List Char) : roleOfOther afterMinus ≠ .joined flag text := by
    unfold roleOfOther
    split <;> simp
  unfold roleOf at h
  split at h
  · unfold roleOfLong at h
    simp only at h
    split at h
    · simp at h
    · split at h
      · exact absurd (Except.ok.inj h) (hother _)
      · simp at h
      · simp at h
  · split at h
    · rename_i short hshort
      have hjoined := Except.ok.inj h
      unfold roleOfShort at hjoined
      split at hjoined
      · simp at hjoined
      · obtain ⟨rfl, -⟩ := Role.joined.inj hjoined
        exact ofSpelling?_short_ne hshort
    · exact absurd (Except.ok.inj h) (hother _)
  · simp at h

theorem Role.keepsLevel_of_not_namesLevel {argument : String} {role : Role}
    (hargument : ¬namesLevel argument) (h : roleOf argument = .ok role) : role.KeepsLevel := by
  cases role with
  | plain => trivial
  | unknown => trivial
  | joined flag text => exact joined_ne h
  | flagged flag value =>
      rintro rfl
      simp [namesLevel, h] at hargument

-- Behind a double dash nothing is a flag.
theorem keepsLevel_rolesOf {after : List String}
    (hafter : ∀ argument ∈ after.takeWhile (· != "--"), ¬namesLevel argument)
    {roles : List (String × Role)} (h : rolesOf after = .ok roles) :
    ∀ entry ∈ roles, entry.2.KeepsLevel := by
  induction after generalizing roles with
  | nil =>
      obtain rfl := Except.ok.inj h
      simp
  | cons argument after ih =>
      unfold rolesOf at h
      split at h
      · obtain rfl := Except.ok.inj h
        simp [Role.KeepsLevel]
      · rename_i hargument
        rw [List.takeWhile_cons_of_pos (by simpa using hargument), List.forall_mem_cons] at hafter
        split at h
        · simp at h
        · simp at h
        · rename_i role others hrole hothers
          obtain rfl := Except.ok.inj h
          rw [List.forall_mem_cons]
          exact ⟨Role.keepsLevel_of_not_namesLevel hafter.1 hrole, ih hafter.2 hothers⟩

-- Either the call ends in the same way at every level, or the level is all that the options differ
-- in.
theorem performAll_level_between (edition : Edition) (first : List (String × Role))
    {later : List (String × Role)} (hlater : ∀ entry ∈ later, entry.2.KeepsLevel) :
    let options := fun level : Level =>
      Options.standard.performAll [] (itemsOf edition (first ++ (levelRoles level ++ later)))
    (∃ exit, ∀ level, options level = .error exit) ∨
    ∃ last : Options, ∀ level, options level = .ok { last with level := some level } := by
  intro options
  obtain ⟨items, mistake, hitems⟩ | ⟨items, hitems⟩ := upToLevel edition first
  · simp only [options, hitems]
    obtain ⟨exit, hexit⟩ | ⟨next, left, hnext⟩ := performAll_append items .standard []
    · exact .inl ⟨exit, fun _ => hexit _⟩
    · exact .inl ⟨.misuse mistake, fun _ => hnext _⟩
  · simp only [options, hitems]
    obtain ⟨exit, hexit⟩ | ⟨next, left, hnext⟩ := performAll_append items .standard []
    · exact .inl ⟨exit, fun _ => hexit _⟩
    · have hset (level : Level) :
          next.performAll left (.action (.setLevel (some level.name)) :: itemsOf edition later) =
            (next.performAll left (itemsOf edition later)).map ({ · with level := some level }) := by
        rw [← performAll_level (keepsLevel_itemsOf hlater), Options.performAll, Options.perform,
          Level.ofName?_name]
      simp only [hnext, hset]
      cases next.performAll left (itemsOf edition later) with
      | error exit => exact .inl ⟨exit, fun _ => rfl⟩
      | ok last => exact .inr ⟨last, fun _ => rfl⟩

-- The level in the arguments goes into the options, and nowhere else.
theorem ofArguments_level (edition : Edition) {before after : List String} (hbefore : "--" ∉ before)
    (hafter : ∀ argument ∈ after.takeWhile (· != "--"), ¬namesLevel argument) :
    let options := fun level : Level =>
      Options.ofArguments edition (before ++ "--log_level" :: level.name :: after)
    (∃ exit, ∀ level, options level = .error exit) ∨
    ∃ last : Options, ∀ level, options level = .ok { last with level := some level } := by
  simp only [Options.ofArguments, rolesOf_append hbefore, rolesOf_level]
  cases rolesOf before with
  | error mistake => exact .inl ⟨.misuse mistake, fun _ => rfl⟩
  | ok first =>
      cases hlater : rolesOf after with
      | error mistake => exact .inl ⟨.misuse mistake, fun _ => rfl⟩
      | ok later => exact performAll_level_between edition first (keepsLevel_rolesOf hafter hlater)

end CommandLine

namespace Event

-- What goes to the output. All else goes to the error stream.
def isOutput : Event → Bool
  | .output _ => true
  | _ => false

end Event

namespace CommandLine

-- The level that is named last hides the records that are milder than it, and makes no other
-- difference: neither to the exit code nor to the output, nor to the errors and the records that
-- are left, nor to the order in which they come. The same is seen if the log is written as it goes.
theorem run_at_level [Power] (edition : Edition) (before after : List String) (level : Level)
    (input : String) (terminal : Bool) (hbefore : "--" ∉ before)
    (hafter : ∀ argument ∈ after.takeWhile (· != "--"), ¬namesLevel argument) :
    let arguments := fun level : Level => before ++ "--log_level" :: level.name :: after
    let called := fun level : Level => run edition (arguments level) input terminal
    (called level).exitCode = (called .debug).exitCode ∧
    (called level).events.filter (·.isOutput) = (called .debug).events.filter (·.isOutput) ∧
    (called level).events.filter (!·.isOutput) =
      ((called .debug).events.filter (!·.isOutput)).filter (·.visibleAt level) ∧
    (called level).events = (called .debug).events.filter (·.visibleAt level) ∧
    ∀ level, Logged.run edition (arguments level) input terminal = called level := by
  intro arguments called
  have hcalled : (called level).exitCode = (called .debug).exitCode ∧
      (called level).events = (called .debug).events.filter (·.visibleAt level) := by
    obtain ⟨exit, hexit⟩ | ⟨options, hoptions⟩ := ofArguments_level edition hbefore hafter
    · have houtcome (level : Level) : called level = called .debug := by
        simp only [called, run, start, arguments, hexit]
      rw [houtcome level]
      refine ⟨rfl, ?_⟩
      simp only [called, run, start, arguments, hexit]
      cases exit <;> rfl
    · have houtcome (level : Level) := run_of_options (hoptions level) rfl input terminal
      simp only [happening_level] at houtcome
      simp only [called, arguments, houtcome, List.filter_filter, Event.visibleAt_debug,
        Bool.and_true, and_self]
  obtain ⟨hexit, hevents⟩ := hcalled
  refine ⟨hexit, ?_, ?_, hevents, fun _ => Logged.run_eq _ _ _ _⟩
  · rw [hevents, List.filter_filter]
    apply List.filter_congr
    intro event _
    cases event <;> simp [Event.isOutput, Event.visibleAt]
  · rw [hevents, List.filter_filter, List.filter_filter]
    simp only [Bool.and_comm]

-- At this level it is told how many lines failed, but not what led to it. One of them is a double
-- dash, which only the late edition takes for a text.
theorem run_at_level_info :
    let arguments := fun level : Level =>
      ["-e", "A 2 ="] ++ "--log_level" :: level.name ::
        ["-e", "A B /", "--expression=--", "-e", "A A *"]
    (run .late (arguments .info) "" false).events =
        (run .late (arguments .debug) "" false).events.filter (·.visibleAt .info) ∧
      (run .late (arguments .info) "" false).events =
        [.record (.batchStarted 4), .error "Error: Unassigned variable: B\n",
          .error "Error: Unknown token: --\n", .output "[4]\n", .record (.batchFailed 2 4)] ∧
      (run .early (arguments .info) "" false).events =
        (run .early (arguments .debug) "" false).events.filter (·.visibleAt .info) ∧
      (run .early (arguments .info) "" false).events =
        [.record (.batchStarted 4), .error "Error: Unassigned variable: B\n",
          .error Crash.expression.report] := by
  intro arguments
  have hlevels (edition : Edition) := run_at_level edition ["-e", "A 2 ="]
    ["-e", "A B /", "--expression=--", "-e", "A A *"] .info "" false (by decide) (by decide)
  exact ⟨(hlevels .late).2.2.2.1, by decide +kernel, (hlevels .early).2.2.2.1, by decide +kernel⟩

end CommandLine

end PostfixCalc
