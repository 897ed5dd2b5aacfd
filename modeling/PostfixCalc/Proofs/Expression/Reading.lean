import PostfixCalc.Expression.Reading
import PostfixCalc.Proofs.Expression.Meaning

namespace PostfixCalc

-- The phrases that an operand is made of, the last one first.
def Operand.phrases : Operand → List Phrase
  | .plain tree => [.expression tree]
  | .followed operand tree => .assignment tree :: operand.phrases

def Target.phrases : Target → List Phrase
  | .letter unread => [.expression (.letter unread)]
  | .followed target tree => .assignment tree :: target.phrases

namespace Phrase

-- The text of phrases that are kept with the last one first.
def written (read : List Phrase) : List Token := read.reverse.flatMap Phrase.tokens

theorem written_cons (phrase : Phrase) (read : List Phrase) :
    written (phrase :: read) = written read ++ phrase.tokens := by
  simp [written]

theorem written_operand (operand : Operand) (read : List Phrase) :
    written (operand.phrases ++ read) = written read ++ operand.tokens := by
  cases operand with
  | plain tree => exact written_cons (.expression tree) read
  | followed before tree =>
      rw [Operand.phrases, List.cons_append, written_cons, written_operand before read,
        List.append_assoc]
      rfl

theorem written_target (target : Target) (read : List Phrase) :
    written (target.phrases ++ read) = written read ++ target.tokens := by
  cases target with
  | letter letter => exact written_cons (.expression (.letter letter)) read
  | followed before tree =>
      rw [Target.phrases, List.cons_append, written_cons, written_target before read,
        List.append_assoc]
      rfl

theorem lastOperand_phrases (operand : Operand) (read : List Phrase) :
    lastOperand (operand.phrases ++ read) = some (operand, read) := by
  cases operand with
  | plain tree => rfl
  | followed before tree =>
      simp [Operand.phrases, lastOperand, lastOperand_phrases before read]

theorem lastTarget_phrases (target : Target) (read : List Phrase) :
    lastTarget (target.phrases ++ read) = some (target, read) := by
  cases target with
  | letter letter => rfl
  | followed before tree =>
      simp [Target.phrases, lastTarget, lastTarget_phrases before read]

theorem eq_of_lastOperand {read before : List Phrase} {operand : Operand}
    (h : lastOperand read = some (operand, before)) : read = operand.phrases ++ before := by
  induction read generalizing operand with
  | nil => exact absurd h (by simp [lastOperand])
  | cons phrase rest ih =>
      cases phrase with
      | expression tree =>
          obtain ⟨rfl, rfl⟩ := Prod.mk.inj (Option.some.inj h)
          rfl
      | assignment tree =>
          rw [lastOperand, Option.map_eq_some_iff] at h
          obtain ⟨⟨inner, left⟩, hinner, hpair⟩ := h
          obtain ⟨rfl, rfl⟩ := Prod.mk.inj hpair
          rw [ih hinner]
          rfl

theorem eq_of_lastTarget {read before : List Phrase} {target : Target}
    (h : lastTarget read = some (target, before)) : read = target.phrases ++ before := by
  induction read generalizing target with
  | nil => exact absurd h (by simp [lastTarget])
  | cons phrase rest ih =>
      cases phrase with
      | expression tree =>
          cases tree with
          | letter letter =>
              obtain ⟨rfl, rfl⟩ := Prod.mk.inj (Option.some.inj h)
              rfl
          | number numeral => exact absurd h (by simp [lastTarget])
          | operation left right op => exact absurd h (by simp [lastTarget])
      | assignment tree =>
          rw [lastTarget, Option.map_eq_some_iff] at h
          obtain ⟨⟨inner, left⟩, hinner, hpair⟩ := h
          obtain ⟨rfl, rfl⟩ := Prod.mk.inj hpair
          rw [ih hinner]
          rfl

theorem readTokens_append (read : List Phrase) (first second : List Token) :
    readTokens read (first ++ second) =
      (readTokens read first).bind fun next => readTokens next second := by
  induction first generalizing read with
  | nil => rfl
  | cons token first ih =>
      simp only [List.cons_append, readTokens, ih, Option.bind_assoc]

-- Reading gives back the trees that have been written out, on top of what has been read before.
mutual

theorem readTokens_expression (tree : Expression) (read : List Phrase) :
    readTokens read tree.tokens = some (.expression tree :: read) := by
  cases tree with
  | number numeral => rfl
  | letter letter => rfl
  | operation left right op =>
      rw [Expression.tokens, readTokens_append, readTokens_append, readTokens_operand left read,
        Option.bind_some, readTokens_operand right (left.phrases ++ read), Option.bind_some]
      simp [readTokens, readToken, lastOperand_phrases]

theorem readTokens_operand (operand : Operand) (read : List Phrase) :
    readTokens read operand.tokens = some (operand.phrases ++ read) := by
  cases operand with
  | plain tree => exact readTokens_expression tree read
  | followed before tree =>
      rw [Operand.tokens, readTokens_append, readTokens_operand before read, Option.bind_some,
        readTokens_assignment tree (before.phrases ++ read)]
      rfl

theorem readTokens_assignment (tree : Assignment) (read : List Phrase) :
    readTokens read tree.tokens = some (.assignment tree :: read) := by
  cases tree with
  | assign target source =>
      rw [Assignment.tokens, readTokens_append, readTokens_append, readTokens_target target read,
        Option.bind_some, readTokens_operand source (target.phrases ++ read), Option.bind_some]
      simp [readTokens, readToken, lastOperand_phrases, lastTarget_phrases]

theorem readTokens_target (target : Target) (read : List Phrase) :
    readTokens read target.tokens = some (target.phrases ++ read) := by
  cases target with
  | letter letter => rfl
  | followed before tree =>
      rw [Target.tokens, readTokens_append, readTokens_target before read, Option.bind_some,
        readTokens_assignment tree (before.phrases ++ read)]
      rfl

end

theorem readTokens_phrases (phrases read : List Phrase) :
    readTokens read (phrases.flatMap Phrase.tokens) = some (phrases.reverse ++ read) := by
  induction phrases generalizing read with
  | nil => rfl
  | cons phrase rest ih =>
      have hphrase : readTokens read phrase.tokens = some (phrase :: read) := by
        cases phrase with
        | expression tree => exact readTokens_expression tree read
        | assignment tree => exact readTokens_assignment tree read
      rw [List.flatMap_cons, readTokens_append, hphrase, Option.bind_some, ih (phrase :: read)]
      simp

-- A token that is read is written at the end, unless it is blank.
theorem written_readToken {read next : List Phrase} {token : Token}
    (h : readToken read token = some next) :
    written next = written read ++ [token].filter (· ≠ .blank) := by
  cases token with
  | blank =>
      obtain rfl := Option.some.inj h
      simp
  | number numeral =>
      obtain rfl := Option.some.inj h
      exact written_cons _ read
  | «variable» letter =>
      obtain rfl := Option.some.inj h
      exact written_cons _ read
  | unknown text => exact absurd h (by simp [readToken])
  | operator op =>
      rw [readToken, Option.bind_eq_some_iff] at h
      obtain ⟨⟨right, rest⟩, hright, h⟩ := h
      obtain ⟨⟨left, before⟩, hleft, rfl⟩ := Option.map_eq_some_iff.mp h
      rw [eq_of_lastOperand hright, eq_of_lastOperand hleft, written_operand, written_operand,
        written_cons]
      simp [Phrase.tokens, Expression.tokens]
  | assign =>
      rw [readToken, Option.bind_eq_some_iff] at h
      obtain ⟨⟨source, rest⟩, hsource, h⟩ := h
      obtain ⟨⟨target, before⟩, htarget, rfl⟩ := Option.map_eq_some_iff.mp h
      rw [eq_of_lastOperand hsource, eq_of_lastTarget htarget, written_operand, written_target,
        written_cons]
      simp [Phrase.tokens, Assignment.tokens]

theorem written_readTokens {read next : List Phrase} {tokens : List Token}
    (h : readTokens read tokens = some next) :
    written next = written read ++ tokens.filter (· ≠ .blank) := by
  induction tokens generalizing read with
  | nil =>
      obtain rfl := Option.some.inj h
      simp
  | cons token rest ih =>
      rw [readTokens, Option.bind_eq_some_iff] at h
      obtain ⟨between, htoken, hrest⟩ := h
      rw [ih hrest, written_readToken htoken, List.append_assoc, ← List.filter_append]
      rfl

theorem readTokens_filter_blank (read : List Phrase) (tokens : List Token) :
    readTokens read (tokens.filter (· ≠ .blank)) = readTokens read tokens := by
  induction tokens generalizing read with
  | nil => rfl
  | cons token rest ih =>
      by_cases hblank : token = .blank
      · subst hblank
        simpa [readTokens, readToken] using ih read
      · simp only [ne_eq, hblank, not_false_eq_true, decide_true, List.filter_cons_of_pos, readTokens]
        congr 1
        funext next
        exact ih next

-- The tokens are the phrases written out. No line has a blank among its tokens; one that comes from
-- elsewhere is passed over.
def Prints (phrases : List Phrase) (tokens : List Token) : Prop :=
  phrases.flatMap Phrase.tokens = tokens.filter (· ≠ .blank)

theorem prints_iff {phrases : List Phrase} {tokens : List Token} :
    Prints phrases tokens ↔ readTokens [] tokens = some phrases.reverse := by
  constructor
  · intro h
    rw [← readTokens_filter_blank, ← h, readTokens_phrases, List.append_nil]
  · intro h
    have hwritten := written_readTokens h
    rwa [written, written, List.reverse_reverse, List.reverse_nil, List.flatMap_nil,
      List.nil_append] at hwritten

end Phrase

end PostfixCalc
