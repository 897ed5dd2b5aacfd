import Mathlib.Data.List.Basic
import Mathlib.Data.Finset.Dedup
import Mathlib.Data.Set.List
import PostfixCalc.Proofs.Token.Classes
import PostfixCalc.Settings.Conditions

namespace PostfixCalc

theorem Level.ofName?_isSome_iff (name : String) :
    (Level.ofName? name).isSome = true ↔ name ∈ ["DEBUG", "INFO", "WARNING", "ERROR", "CRITICAL"] := by
  change _ ↔ name ∈ Level.all.map Level.name
  simp only [Level.ofName?, List.find?_isSome, List.mem_map, beq_iff_eq]

theorem SettingsFault.message_injective : Function.Injective SettingsFault.message := by
  intro first second
  cases first <;> cases second <;> decide

namespace Settings

theorem hasKnownSymbols_iff (settings : Settings) :
    settings.hasKnownSymbols = true ↔
      settings.operatorSymbols.toFinset = {"+", "-", "*", "/", "%", "^"} := by
  have hknown : ({"+", "-", "*", "/", "%", "^"} : Finset String) = knownSymbols.toFinset := rfl
  rw [hknown, Finset.ext_iff, hasKnownSymbols]
  simp only [Bool.and_eq_true, List.all_eq_true, List.contains_iff_mem, List.mem_toFinset]
  constructor
  · exact fun h text => ⟨h.1 text, h.2 text⟩
  · exact fun h => ⟨fun text => (h text).mp, fun text => (h text).mpr⟩

theorem nodup_iff_length_eq (symbols : List String) :
    symbols.Nodup ↔ symbols.length = symbols.toFinset.card := by
  rw [eq_comm]
  exact (Multiset.toFinset_card_eq_card_iff_nodup (m := (symbols : Multiset String))).symm

-- Two lists without repetition that are the same set differ in their order only.
theorem perm_iff (settings : Settings) :
    settings.operatorSymbols.Perm ["+", "-", "*", "/", "%", "^"] ↔
      ¬ settings.Breaks .operatorSet ∧ ¬ settings.Breaks .operatorTwice := by
  have hknown : ["+", "-", "*", "/", "%", "^"].Nodup := by decide
  simp only [Breaks, not_not, ← nodup_iff_length_eq]
  constructor
  · intro hperm
    exact ⟨List.toFinset_eq_of_perm _ _ hperm, hperm.nodup_iff.mpr hknown⟩
  · rintro ⟨hset, honce⟩
    exact List.perm_of_nodup_nodup_toFinset_eq honce hknown hset

-- The conditions are tried one by one, and the first that does not hold ends the check.
theorem check_eq (settings : Settings) :
    settings.check = (SettingsFault.all.find? (settings.Breaks ·)).elim (.ok ()) .error := by
  have hset_iff : settings.hasKnownSymbols = true ↔ ¬ settings.Breaks .operatorSet :=
    settings.hasKnownSymbols_iff.trans not_not.symm
  have honce_iff : settings.operatorSymbols.Nodup ↔ ¬ settings.Breaks .operatorTwice :=
    (nodup_iff_length_eq settings.operatorSymbols).trans not_not.symm
  have hmark_iff : settings.operatorSymbols.contains settings.assignMark = true ↔
      settings.Breaks .markIsOperator := List.contains_iff_mem
  have hpair_iff : settings.resultBrackets.length = 2 ↔ ¬ settings.Breaks .brackets := not_not.symm
  have hlevel_iff : (Level.ofName? settings.level).isSome = true ↔ ¬ settings.Breaks .level :=
    (Level.ofName?_isSome_iff settings.level).trans not_not.symm
  unfold check
  simp only [hset_iff, honce_iff, hmark_iff, hpair_iff, hlevel_iff, SettingsFault.all,
    List.find?_cons, List.find?_nil]
  by_cases hset : settings.Breaks .operatorSet
  · simp only [hset]
    rfl
  by_cases honce : settings.Breaks .operatorTwice
  · simp only [hset, honce]
    rfl
  by_cases hmark : settings.Breaks .markIsOperator
  · simp only [hset, honce, hmark]
    rfl
  by_cases hpair : settings.Breaks .brackets
  · simp only [hset, honce, hmark, hpair]
    rfl
  by_cases hlevel : settings.Breaks .level
  · simp only [hset, honce, hmark, hpair, hlevel]
    rfl
  · simp only [hset, honce, hmark, hpair, hlevel]
    rfl

theorem breaksFirst_iff {settings : Settings} {fault : SettingsFault} :
    settings.BreaksFirst fault ↔ SettingsFault.all.find? (settings.Breaks ·) = some fault := by
  rw [List.find?_eq_some_iff_append, BreaksFirst]
  simp only [decide_eq_true_eq, Bool.not_eq_true', decide_eq_false_iff_not]

theorem check_eq_error_iff (settings : Settings) (fault : SettingsFault) :
    settings.check = .error fault ↔ settings.BreaksFirst fault := by
  rw [breaksFirst_iff, check_eq]
  cases SettingsFault.all.find? (settings.Breaks ·) <;> simp

theorem check_eq_ok_iff (settings : Settings) :
    settings.check = .ok () ↔
      settings.operatorSymbols.Perm ["+", "-", "*", "/", "%", "^"] ∧
        settings.assignMark ∉ settings.operatorSymbols ∧ settings.resultBrackets.length = 2 ∧
        settings.level ∈ ["DEBUG", "INFO", "WARNING", "ERROR", "CRITICAL"] := by
  have hnone : settings.check = .ok () ↔ SettingsFault.all.find? (settings.Breaks ·) = none := by
    rw [check_eq]
    cases SettingsFault.all.find? (settings.Breaks ·) <;> simp
  have hmark : ¬ settings.Breaks .markIsOperator ↔ settings.assignMark ∉ settings.operatorSymbols :=
    Iff.rfl
  have hpair : ¬ settings.Breaks .brackets ↔ settings.resultBrackets.length = 2 := not_not
  have hlevel : ¬ settings.Breaks .level ↔
      settings.level ∈ ["DEBUG", "INFO", "WARNING", "ERROR", "CRITICAL"] := not_not
  rw [hnone, List.find?_eq_none, perm_iff, ← hmark, ← hpair, ← hlevel]
  simp only [SettingsFault.all, List.forall_mem_cons, List.not_mem_nil, decide_eq_true_eq,
    false_imp_iff, implies_true, and_true, and_assoc]

-- What the table of the tokens has under the class of the operators.
theorem lookup_tokenKinds_iff (settings : Settings) (text : String) :
    settings.tokenKinds.lookup text = some .operator ↔
      text ∈ settings.operatorSymbols ∧ text ≠ settings.assignMark := by
  have hfilter : text ∈ settings.operatorSymbols.filter (· != settings.assignMark) ↔
      text ∈ settings.operatorSymbols ∧ text ≠ settings.assignMark := by
    rw [List.mem_filter, bne_iff_ne]
  rw [tokenKinds, List.lookup_append, ← hfilter]
  generalize settings.operatorSymbols.filter (· != settings.assignMark) = symbols
  by_cases hmem : text ∈ symbols
  · rw [List.lookup_graph (fun _ => TokenKind.operator) hmem]
    exact iff_of_true rfl hmem
  · have hnone : (symbols.map (·, TokenKind.operator)).lookup text = none := by
      rw [List.lookup_eq_none_iff]
      intro entry hentry
      obtain ⟨symbol, hsymbol, rfl⟩ := List.mem_map.mp hentry
      exact bne_iff_ne.mpr fun heq => hmem (heq ▸ hsymbol)
    rw [hnone, Option.none_or, List.lookup_cons]
    cases text == settings.assignMark <;> simp [hmem]

-- The table of the operators comes about exactly for symbols of operators.
theorem operators_eq_ok_iff (settings : Settings) (table : List (String × Operator)) :
    settings.operators = .ok table ↔ ∃ ops : List Operator,
      settings.operatorSymbols = ops.map Operator.symbol ∧ table = ops.map fun op => (op.symbol, op) := by
  rw [operators]
  induction settings.operatorSymbols generalizing table with
  | nil =>
      constructor
      · intro htable
        exact ⟨[], rfl, (Except.ok.inj htable).symm⟩
      · rintro ⟨ops, hops, rfl⟩
        rw [List.map_eq_nil_iff.mp hops.symm]
        rfl
  | cons symbol symbols ih =>
      rw [List.mapM_cons, entryOf]
      constructor
      · intro htable
        cases hsymbol : Operator.ofSymbol? symbol with
        | none =>
            rw [hsymbol] at htable
            cases htable
        | some op =>
            obtain rfl := Operator.ofSymbol?_eq_some_iff.mp hsymbol
            cases hlater : symbols.mapM entryOf with
            | error error =>
                rw [hsymbol, hlater] at htable
                cases htable
            | ok later =>
                rw [hsymbol, hlater] at htable
                obtain rfl := Except.ok.inj htable
                obtain ⟨ops, rfl, rfl⟩ := (ih later).mp hlater
                exact ⟨op :: ops, rfl, rfl⟩
      · rintro ⟨ops, hops, rfl⟩
        obtain ⟨op, rest, rfl, rfl, hrest⟩ := List.map_eq_cons_iff.mp hops.symm
        rw [Operator.ofSymbol?_symbol, (ih _).mpr ⟨rest, hrest.symm, rfl⟩]
        rfl

theorem exists_operators {settings : Settings}
    (hknown : ∀ symbol ∈ settings.operatorSymbols, symbol ∈ knownSymbols) :
    ∃ table, settings.operators = .ok table := by
  have hrange : settings.operatorSymbols ∈ Set.range (List.map Operator.symbol) := by
    rw [Set.range_list_map]
    intro symbol hsymbol
    obtain ⟨op, -, hop⟩ := List.mem_map.mp (hknown symbol hsymbol)
    exact ⟨op, hop⟩
  obtain ⟨ops, hops⟩ := hrange
  exact ⟨_, (settings.operators_eq_ok_iff _).mpr ⟨ops, hops.symm, rfl⟩⟩

theorem lookup_entries (ops : List Operator) (text : String) :
    (ops.map fun op => (op.symbol, op)).lookup text = ops.find? (·.symbol == text) := by
  induction ops with
  | nil => rfl
  | cons op ops ih => rw [List.map_cons, List.lookup_cons, List.find?_cons, ih, BEq.comm]

-- What it has: each symbol with the operator that it stands for.
theorem lookup_operators_iff {settings : Settings} {table : List (String × Operator)}
    (htable : settings.operators = .ok table) (text : String) (op : Operator) :
    table.lookup text = some op ↔ text ∈ settings.operatorSymbols ∧ text = op.symbol := by
  obtain ⟨ops, hsymbols, rfl⟩ := (settings.operators_eq_ok_iff table).mp htable
  rw [lookup_entries, hsymbols, List.mem_map]
  constructor
  · intro hfound
    have htext : op.symbol = text := by simpa using List.find?_some hfound
    exact ⟨⟨op, List.mem_of_find?_eq_some hfound, htext⟩, htext.symm⟩
  · rintro ⟨⟨other, hmem, hother⟩, rfl⟩
    obtain rfl := Operator.symbol_injective hother
    cases hfound : ops.find? (·.symbol == other.symbol) with
    | none => exact absurd (List.find?_eq_none.mp hfound other hmem) (by simp)
    | some first => exact congrArg some (Operator.symbol_injective (by simpa using List.find?_some hfound))

-- The test of the operators comes behind that of the numbers.
theorem classify_eq_operator_iff (settings : Settings) (text : String) :
    settings.classify text = .operator ↔
      text ≠ "" ∧ Token.isNumber text = false ∧ text ∈ settings.operatorSymbols ∧
        text ≠ settings.assignMark := by
  rw [← lookup_tokenKinds_iff, classify, Token.kindBy, recognisers]
  by_cases hempty : text = ""
  · simp [hempty]
  simp only [hempty, ite_false, List.find?_cons, List.find?_nil]
  cases Token.isNumber text with
  | true => simp
  | false =>
      by_cases hlookup : settings.tokenKinds.lookup text = some .operator
      · simp [hempty, hlookup]
      · rw [beq_eq_false_iff_ne.mpr hlookup]
        cases text == settings.assignMark <;> cases Token.isVariable text <;> simp [hlookup]

-- Under the standard choices a text has the class that it is read with.
theorem classify_standard (text : String) : standard.classify text = (Token.read text).kind := by
  have hoperator : (fun text => standard.tokenKinds.lookup text == some .operator) =
      Token.isOperator := by
    funext text
    rw [Bool.eq_iff_iff, beq_iff_eq, Token.isOperator_iff_lookup]
  rw [← Token.kindBy_eq_kind (List.Perm.refl Token.recognisers) text, classify, recognisers,
    hoperator]
  rfl

end Settings

-- The choices go through exactly if the symbols are the six operators in some order, the mark is none
-- of them, the brackets are two and the level has one of the five names. Otherwise the first fault is
-- reported, and its text tells which it is. When they go through, the texts that are taken for
-- operators are those that have a function, which is their own, and the mark is not among them.
theorem check_accepts_sound (settings : Settings) :
    (settings.check = .ok () ↔
      settings.operatorSymbols.Perm ["+", "-", "*", "/", "%", "^"] ∧
        settings.assignMark ∉ settings.operatorSymbols ∧ settings.resultBrackets.length = 2 ∧
        settings.level ∈ ["DEBUG", "INFO", "WARNING", "ERROR", "CRITICAL"]) ∧
    (∀ fault, settings.check = .error fault ↔ settings.BreaksFirst fault) ∧
    Function.Injective SettingsFault.message ∧
    (settings.check = .ok () → ∃ table, settings.operators = .ok table ∧
      (∀ text, settings.classify text = .operator ↔ ∃ op, table.lookup text = some op) ∧
      (∀ text op, table.lookup text = some op → op.symbol = text) ∧
      settings.classify settings.assignMark ≠ .operator) := by
  refine ⟨settings.check_eq_ok_iff, settings.check_eq_error_iff, SettingsFault.message_injective,
    fun hcheck => ?_⟩
  obtain ⟨hperm, hmark, -, -⟩ := settings.check_eq_ok_iff.mp hcheck
  obtain ⟨table, htable⟩ := Settings.exists_operators fun _ hmem => hperm.subset hmem
  refine ⟨table, htable, fun text => ?_, fun text op hop => ?_, fun hoperator => ?_⟩
  · simp only [settings.classify_eq_operator_iff, Settings.lookup_operators_iff htable]
    constructor
    · rintro ⟨-, -, hmem, -⟩
      have hknown : text ∈ Operator.all.map Operator.symbol := hperm.subset hmem
      obtain ⟨op, -, rfl⟩ := List.mem_map.mp hknown
      exact ⟨op, hmem, rfl⟩
    · rintro ⟨op, hmem, rfl⟩
      refine ⟨?_, ?_, hmem, fun heq => hmark (heq ▸ hmem)⟩
      · cases op <;> decide
      · cases op <;> decide
  · exact ((Settings.lookup_operators_iff htable text op).mp hop).2.symm
  · exact ((settings.classify_eq_operator_iff _).mp hoperator).2.2.2 rfl

example : Settings.standard.check = .ok () := by decide +kernel

end PostfixCalc
