import PostfixCalc.CommandLine

namespace PostfixCalc.CommandLine

-- Roles go by the arguments one by one, up to a double dash.
theorem rolesOf_append {before : List String} (hbefore : "--" ∉ before) (after : List String) :
    rolesOf (before ++ after) = (do
      let first ← rolesOf before
      let later ← rolesOf after
      return first ++ later) := by
  induction before with
  | nil => cases h : rolesOf after <;> simp [rolesOf, h] <;> rfl
  | cons argument before ih =>
      have hargument : argument ≠ "--" := fun h => hbefore (by simp [h])
      simp only [List.cons_append, rolesOf, hargument, ite_false, ih (by simp_all)]
      cases roleOf argument with
      | error mistake => rfl
      | ok role =>
          cases rolesOf before with
          | error mistake => rfl
          | ok roles => cases rolesOf after <;> rfl

-- What the first argument comes to, by what it is.
section

variable {edition : Edition} (argument : String) {role : Role}

theorem itemsOf_unclaimed (hrole : role.cluster? edition = none) (rest : List (String × Role)) :
    itemsOf edition ((argument, role) :: rest) = .unclaimed argument :: itemsOf edition rest := by
  simp only [itemsOf, hrole]

theorem itemsOf_mistake {mistake : Misuse} (hrole : role.cluster? edition = some (.error mistake))
    (rest : List (String × Role)) :
    itemsOf edition ((argument, role) :: rest) = [.mistake mistake] := by
  simp only [itemsOf, hrole]

theorem itemsOf_complete {items : List Item} (hrole : role.cluster? edition = some (.ok ⟨items, none⟩))
    (rest : List (String × Role)) :
    itemsOf edition ((argument, role) :: rest) = items ++ itemsOf edition rest := by
  simp only [itemsOf, hrole]

theorem itemsOf_valued {items : List Item} {flag : Flag}
    (hrole : role.cluster? edition = some (.ok ⟨items, some flag⟩)) (value : String)
    (rest : List (String × Role)) :
    itemsOf edition ((argument, role) :: (value, .plain) :: rest) =
      (items ++ [.action (flag.action (some value))]) ++ itemsOf edition rest := by
  simp only [itemsOf, hrole, List.append_assoc, List.singleton_append]

theorem itemsOf_unvalued {items : List Item} {flag : Flag}
    (hrole : role.cluster? edition = some (.ok ⟨items, some flag⟩)) {rest : List (String × Role)}
    (hrest : ∀ value others, rest ≠ (value, .plain) :: others) :
    itemsOf edition ((argument, role) :: rest) = [.mistake (.valueExpected flag)] := by
  simp only [itemsOf, hrole]

end

-- Items either end the call, or lead to some options, whatever comes after them.
theorem performAll_append (items : List Item) (options : Options) (unclaimed : List String) :
    (∃ exit, ∀ later, options.performAll unclaimed (items ++ later) = .error exit) ∨
    ∃ next left, ∀ later,
      options.performAll unclaimed (items ++ later) = Options.performAll next left later := by
  induction items generalizing options unclaimed with
  | nil => exact .inr ⟨options, unclaimed, fun _ => rfl⟩
  | cons item items ih =>
      cases item with
      | unclaimed text => exact ih options (unclaimed ++ [text])
      | mistake mistake => exact .inl ⟨_, fun _ => rfl⟩
      | action action =>
          simp only [List.cons_append, Options.performAll]
          cases options.perform action with
          | error exit => exact .inl ⟨exit, fun _ => rfl⟩
          | ok next => exact ih next unclaimed

end PostfixCalc.CommandLine
