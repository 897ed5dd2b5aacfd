import PostfixCalc.Console
import PostfixCalc.Proofs.Binary64.Display
import PostfixCalc.Proofs.Machine.Failure
import PostfixCalc.Proofs.Machine.Reachable
import PostfixCalc.Proofs.Text.Words

namespace PostfixCalc

namespace Text

-- The characters at which a text breaks into lines: the line ends of ASCII and of Unicode, and the
-- separators of files, groups and records.
def isLineBreak (c : Char) : Bool :=
  let n := c.toNat
  (10 ≤ n && n ≤ 13) || (28 ≤ n && n ≤ 30) || n == 0x85 || n == 0x2028 || n == 0x2029

-- A text without a line break in it.
def IsLine (text : List Char) : Prop := ∀ c ∈ text, isLineBreak c = false

instance (text : List Char) : Decidable (IsLine text) := List.decidableBAll _ text

theorem isBlank_of_isLineBreak {c : Char} (h : isLineBreak c = true) : isBlank c = true := by
  simp only [isLineBreak, isBlank, Bool.or_eq_true, Bool.and_eq_true, decide_eq_true_eq,
    beq_iff_eq] at h ⊢
  omega

-- A word has no blanks, and line breaks are blanks.
theorem IsWord.isLine {text : List Char} (h : IsWord text) : IsLine text := by
  intro c hc
  have hsolid := h.2 c hc
  by_contra hbreak
  rw [Bool.not_eq_false] at hbreak
  exact absurd (isBlank_of_isLineBreak hbreak) (by simp [hsolid])

theorem IsLine.append {first second : List Char} (hfirst : IsLine first) (hsecond : IsLine second) :
    IsLine (first ++ second) := by
  intro c hc
  exact (List.mem_append.mp hc).elim (hfirst c) (hsecond c)

end Text

namespace EvalError

-- What the message of an error quotes.
def quoted : EvalError → String
  | .unassignedVariable text | .unknownToken text => text
  | _ => ""

-- There is no line break in a message but those that it quotes.
theorem isLine_message {error : EvalError} (h : Text.IsLine error.quoted.toList) :
    Text.IsLine error.message.toList := by
  cases error with
  | unassignedVariable name =>
      change Text.IsLine ("Unassigned variable: " ++ name).toList
      rw [String.toList_append]
      exact .append (by decide) h
  | unknownToken text =>
      change Text.IsLine ("Unknown token: " ++ text).toList
      rw [String.toList_append]
      exact .append (by decide) h
  | stackUnderflow token depth => exact (by decide : Text.IsLine "Stack underflow".toList)
  | divisionByZero => decide
  | invalidOperand operand => exact (by decide : Text.IsLine "Invalid operation or operand".toList)
  | invalidTarget target => exact (by decide : Text.IsLine "Invalid variable".toList)

end EvalError

theorem Letter.isLine_name (letter : Letter) : Text.IsLine letter.name.toList :=
  (Token.isWord_text (.variable letter) trivial).isLine

namespace Machine

variable {machine : Machine} {error : EvalError}

theorem Unresolved.isLine_quoted {cell : Cell} (h : machine.Unresolved cell error)
    (hcell : cell.IsProper) : Text.IsLine error.quoted.toList := by
  cases h with
  | unassigned name =>
      obtain ⟨letter, rfl⟩ := hcell
      exact letter.isLine_name
  | foreign text => exact hcell.elim

-- A token is quoted itself, or a name that it finds on the stack.
theorem Fails.isLine_quoted {token : Token} {count : Nat} (h : machine.Fails token error count)
    (hproper : machine.IsProper) (htoken : Text.IsLine token.text.toList) :
    Text.IsLine error.quoted.toList := by
  cases h with
  | unknown text => exact htoken
  | short => exact (by decide : Text.IsLine "".toList)
  | right op right left rest _ hstack hright =>
      exact hright.isLine_quoted (hproper right (by simp [hstack]))
  | left op right left rest rhs _ hstack hright hleft =>
      exact hleft.isLine_quoted (hproper left (by simp [hstack]))
  | zeroDivisor => exact (by decide : Text.IsLine "".toList)
  | target => exact (by decide : Text.IsLine "".toList)
  | source source letter rest _ hstack hsource =>
      exact hsource.isLine_quoted (hproper source (by simp [hstack]))

theorem isLine_text_of_mem_tokens {line : String} {token : Token} (h : token ∈ tokens line) :
    Text.IsLine token.text.toList := by
  obtain ⟨word, hword, rfl⟩ := List.mem_map.mp h
  obtain ⟨chars, hchars, rfl⟩ := List.mem_map.mp hword
  rw [Token.text_read, String.toList_ofList]
  exact (Text.isWord_of_mem_wordsOf line.toList chars hchars).isLine

variable [Power]

theorem isLine_quoted_run {line : String} (hproper : machine.IsProper)
    (h : (machine.run (tokens line)).failure = some error) : Text.IsLine error.quoted.toList := by
  obtain ⟨place, -, token, hplace, hfailure⟩ := exists_failsAt h
  obtain ⟨count, hfails⟩ := failure_step_iff.mp hfailure
  have hbefore := (isProper_run ((tokens line).take place) hproper).machine
  exact hfails.isLine_quoted hbefore (isLine_text_of_mem_tokens (List.mem_of_getElem? hplace))

-- Whatever the line is, its error is told on one line.
theorem isLine_message_evaluate {line : String} (h : (machine.evaluate line).result = .error error) :
    Text.IsLine error.message.toList := by
  apply EvalError.isLine_message
  cases hfailure : (machine.reset.run (tokens line)).failure with
  | some first =>
      rw [result_of_failure hfailure] at h
      obtain rfl := Except.error.inj h
      exact isLine_quoted_run machine.isProper_reset hfailure
  | none =>
      rw [result_of_done hfailure] at h
      obtain ⟨cell, rest, hstack, hcell⟩ := exists_of_top_error h
      have hproper := (isProper_run (tokens line) machine.isProper_reset).machine
      exact (resolve_eq_error_iff.mp hcell).isLine_quoted (hproper cell (by simp [hstack]))

end Machine

namespace Console

theorem isLine_resultText (value : Binary64) : Text.IsLine (resultText value).toList := by
  rw [resultText, String.toList_append, String.toList_append]
  exact .append (.append (by decide) value.isWord_display.isLine) (by decide)

theorem isLine_reportText {message : String} (h : Text.IsLine message.toList) :
    Text.IsLine (reportText message).toList := by
  rw [reportText, String.toList_append]
  exact .append (by decide) h

end Console

end PostfixCalc
