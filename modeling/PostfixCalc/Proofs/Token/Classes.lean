import PostfixCalc.Settings
import PostfixCalc.Proofs.Token.Grammar

namespace PostfixCalc

namespace Token

theorem isNumber_iff {text : String} :
    isNumber text = true ↔ ∃ numeral : Numeral, text = numeral.text := by
  rw [isNumber, Option.isSome_iff_exists]
  simp only [Numeral.ofText?_eq_some_iff]

theorem isOperator_iff {text : String} : isOperator text = true ↔ ∃ op : Operator, text = op.symbol := by
  rw [isOperator, Option.isSome_iff_exists]
  simp only [Operator.ofSymbol?_eq_some_iff]

theorem isAssign_iff {text : String} : isAssign text = true ↔ text = assignMark := beq_iff_eq

theorem isVariable_iff {text : String} :
    isVariable text = true ↔ ∃ letter : Letter, text = letter.name := by
  rw [isVariable, Option.isSome_iff_exists]
  simp only [Letter.ofName?_eq_some_iff]

theorem isNumber_iff_isWritten {text : String} :
    isNumber text = true ↔ Numeral.IsWritten text.toList := by
  rw [isNumber_iff, Numeral.isWritten_iff]
  simp only [← String.toList_inj, Numeral.toList_text]

theorem isVariable_iff_matchesAll {text : String} :
    isVariable text = true ↔ Letter.pattern.MatchesAll text.toList := by
  rw [isVariable_iff, Letter.matchesAll_pattern_iff]
  simp only [← String.toList_inj, Letter.toList_name]

-- The table of the fixed symbols.
theorem tokenKinds_standard :
    Settings.standard.tokenKinds =
      Operator.all.map (fun op => (op.symbol, TokenKind.operator)) ++ [(assignMark, .assign)] := by
  decide +kernel

theorem mem_of_lookup {text : String} {kind : TokenKind}
    (h : Settings.standard.tokenKinds.lookup text = some kind) :
    (kind = .operator ∧ ∃ op : Operator, text = op.symbol) ∨ (kind = .assign ∧ text = assignMark) := by
  obtain ⟨before, after, hsplit, _⟩ := List.lookup_eq_some_iff.mp h
  have hmem : (text, kind) ∈ Settings.standard.tokenKinds := by simp [hsplit]
  rw [tokenKinds_standard, List.mem_append, List.mem_map, List.mem_singleton] at hmem
  rcases hmem with ⟨op, _, heq⟩ | heq
  · obtain ⟨rfl, rfl⟩ := Prod.mk.inj heq
    exact .inl ⟨rfl, op, rfl⟩
  · obtain ⟨rfl, rfl⟩ := Prod.mk.inj heq
    exact .inr ⟨rfl, rfl⟩

theorem isOperator_iff_lookup {text : String} :
    isOperator text = true ↔ Settings.standard.tokenKinds.lookup text = some .operator := by
  rw [isOperator_iff]
  constructor
  · rintro ⟨op, rfl⟩
    rw [tokenKinds_standard]
    cases op <;> rfl
  · intro h
    obtain ⟨_, hop⟩ | ⟨hkind, _⟩ := mem_of_lookup h
    · exact hop
    · exact absurd hkind (by decide)

theorem isAssign_iff_lookup {text : String} :
    isAssign text = true ↔ Settings.standard.tokenKinds.lookup text = some .assign := by
  rw [isAssign_iff]
  constructor
  · rintro rfl
    rw [tokenKinds_standard]
    rfl
  · intro h
    obtain ⟨hkind, _⟩ | ⟨_, hmark⟩ := mem_of_lookup h
    · exact absurd hkind (by decide)
    · exact hmark

theorem kind_eq_number_iff {token : Token} :
    token.kind = .number ↔ ∃ numeral, token = .number numeral := by
  cases token <;> simp [kind]

theorem kind_eq_operator_iff {token : Token} : token.kind = .operator ↔ ∃ op, token = .operator op := by
  cases token <;> simp [kind]

theorem kind_eq_assign_iff {token : Token} : token.kind = .assign ↔ token = .assign := by
  cases token <;> simp [kind]

theorem kind_eq_variable_iff {token : Token} :
    token.kind = .variable ↔ ∃ letter, token = .variable letter := by
  cases token <;> simp [kind]

theorem kind_read_eq_empty_iff {text : String} : (read text).kind = .empty ↔ text = "" := by
  constructor
  · intro h
    have htext := text_read text
    cases hread : read text with
    | blank => rwa [hread, eq_comm] at htext
    | number | operator | assign | «variable» | unknown => simp [hread, kind] at h
  · rintro rfl
    rfl

-- A test holds exactly where reading gives its class. Known tokens are read from their texts alone,
-- so no earlier test can come before it.
theorem kind_read_eq_iff {text : String} {check : TokenKind × (String → Bool)}
    (hcheck : check ∈ recognisers) : (read text).kind = check.1 ↔ check.2 text = true := by
  simp only [recognisers, List.mem_cons, List.not_mem_nil, or_false] at hcheck
  rcases hcheck with rfl | rfl | rfl | rfl
  · rw [kind_eq_number_iff, isNumber_iff]
    exact exists_congr fun _ => read_eq_iff trivial
  · rw [kind_eq_operator_iff, isOperator_iff]
    exact exists_congr fun _ => read_eq_iff trivial
  · rw [kind_eq_assign_iff, isAssign_iff]
    exact read_eq_iff trivial
  · rw [kind_eq_variable_iff, isVariable_iff]
    exact exists_congr fun _ => read_eq_iff trivial

theorem exists_recogniser {kind : TokenKind} (hempty : kind ≠ .empty) (hunknown : kind ≠ .unknown) :
    ∃ check ∈ recognisers, check.1 = kind := by
  cases kind <;> simp_all [recognisers]

theorem recogniser_ne {check : TokenKind × (String → Bool)} (hcheck : check ∈ recognisers) :
    check.1 ≠ .unknown := by
  have hall : ∀ check ∈ recognisers, check.1 ≠ .unknown := by simp [recognisers]
  exact hall check hcheck

theorem kind_read_eq_unknown_iff {text : String} :
    (read text).kind = .unknown ↔ text ≠ "" ∧ ∀ check ∈ recognisers, check.2 text = false := by
  constructor
  · intro h
    refine ⟨fun hempty => ?_, fun check hcheck => ?_⟩
    · rw [kind_read_eq_empty_iff.mpr hempty] at h
      cases h
    · rw [← Bool.not_eq_true, ← kind_read_eq_iff hcheck, h]
      exact (recogniser_ne hcheck).symm
  · rintro ⟨hne, hnone⟩
    by_contra hunknown
    obtain ⟨check, hcheck, hkind⟩ := exists_recogniser (mt kind_read_eq_empty_iff.mp hne) hunknown
    have htrue := (kind_read_eq_iff hcheck).mp hkind.symm
    rw [hnone check hcheck] at htrue
    cases htrue

-- No text passes two of the tests.
theorem recognisers_disjoint (text : String) :
    recognisers.Pairwise fun first second => ¬ (first.2 text = true ∧ second.2 text = true) := by
  have hclasses : recognisers.Pairwise (·.1 ≠ ·.1) := by simp [recognisers]
  refine hclasses.imp_of_mem fun hfirst hsecond hne => ?_
  rw [← kind_read_eq_iff hfirst, ← kind_read_eq_iff hsecond]
  rintro ⟨hkind, hother⟩
  exact hne (hkind.symm.trans hother)

theorem kindBy_eq_kind {checks : List (TokenKind × (String → Bool))} (hperm : checks.Perm recognisers)
    (text : String) : kindBy checks text = (read text).kind := by
  unfold kindBy
  by_cases hempty : text = ""
  · rw [if_pos hempty, kind_read_eq_empty_iff.mpr hempty]
  · rw [if_neg hempty]
    cases hfound : checks.find? (·.2 text) with
    | some check =>
        have hmem := hperm.subset (List.mem_of_find?_eq_some hfound)
        exact ((kind_read_eq_iff hmem).mpr (by simpa using List.find?_some hfound)).symm
    | none =>
        have hnone : ∀ check ∈ recognisers, check.2 text = false := by
          intro check hcheck
          simpa using List.find?_eq_none.mp hfound check (hperm.symm.subset hcheck)
        exact (kind_read_eq_unknown_iff.mpr ⟨hempty, hnone⟩).symm

-- A text is a number exactly if it is written as one, which is also what the number pattern matches;
-- a variable is what the variable pattern matches, and operators and the assignment mark are what the
-- table of the symbols has under these classes. No text passes two tests. It is empty, of the class
-- of its test, or unknown, and it does not matter in which order the tests are made.
theorem kind_iff_recognised (text : String) :
    (isNumber text = true ↔ Numeral.IsWritten text.toList) ∧
    (isNumber text = true ↔ Numeral.pattern.MatchesAll text.toList) ∧
    (isVariable text = true ↔ Letter.pattern.MatchesAll text.toList) ∧
    (isOperator text = true ↔ Settings.standard.tokenKinds.lookup text = some .operator) ∧
    (isAssign text = true ↔ Settings.standard.tokenKinds.lookup text = some .assign) ∧
    recognisers.Pairwise (fun first second => ¬ (first.2 text = true ∧ second.2 text = true)) ∧
    ((read text).kind = .empty ↔ text = "") ∧
    (∀ check ∈ recognisers, ((read text).kind = check.1 ↔ check.2 text = true)) ∧
    ((read text).kind = .unknown ↔ text ≠ "" ∧ ∀ check ∈ recognisers, check.2 text = false) ∧
    ∀ checks : List (TokenKind × (String → Bool)), checks.Perm recognisers →
      kindBy checks text = (read text).kind :=
  ⟨isNumber_iff_isWritten, isNumber_iff_isWritten.trans Numeral.matchesAll_pattern_iff.symm,
    isVariable_iff_matchesAll, isOperator_iff_lookup, isAssign_iff_lookup, recognisers_disjoint text,
    kind_read_eq_empty_iff, fun _ => kind_read_eq_iff, kind_read_eq_unknown_iff,
    fun _ hperm => kindBy_eq_kind hperm text⟩

-- A minus sign belongs to the digits behind it, and a line feed at the end spoils a number.
example : (["-", "-5", "5\n", ".5", "5.", "-0.50", "A\n"].map fun text => (read text).kind) =
    [.operator, .number, .unknown, .unknown, .unknown, .number, .unknown] := by
  decide +kernel

end Token

namespace Subject

theorem kind_eq_empty_iff {subject : Subject} : subject.kind = .empty ↔ subject.isVoid = true := by
  cases subject with
  | text value => simp [kind, isVoid, Token.kind_read_eq_empty_iff]
  | absent | truth | integer | cell =>
      simp only [kind]
      split <;> simp_all

-- A token is of the class of a test exactly if it passes the test, whether or not it is a text.
theorem kind_eq_iff {subject : Subject} {check : TokenKind × (String → Bool)}
    (hcheck : check ∈ Token.recognisers) : subject.kind = check.1 ↔ subject.passes check.2 = true := by
  have hempty : .empty ≠ check.1 := by
    have hall : ∀ check ∈ Token.recognisers, .empty ≠ check.1 := by simp [Token.recognisers]
    exact hall check hcheck
  have hunknown := (Token.recogniser_ne hcheck).symm
  cases subject with
  | text value => exact Token.kind_read_eq_iff hcheck
  | absent | truth | integer | cell =>
      simp only [kind, passes]
      split <;> simp [hempty, hunknown]

end Subject

end PostfixCalc
