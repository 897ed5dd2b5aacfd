import PostfixCalc.Token
import PostfixCalc.Proofs.Numeral
import PostfixCalc.Proofs.Text.Spacing

namespace PostfixCalc

namespace Letter

@[simp] theorem ofChar?_toChar (letter : Letter) : ofChar? letter.toChar = some letter := by
  obtain ⟨index⟩ := letter
  revert index
  decide

theorem toChar_of_ofChar? {c : Char} {letter : Letter} (h : ofChar? c = some letter) :
    letter.toChar = c := by
  unfold ofChar? at h
  split at h
  · rename_i hrange
    obtain rfl := Option.some.inj h
    rw [toChar, Nat.add_sub_cancel' hrange.1, Char.ofNat_toNat]
  · exact absurd h (by simp)

@[simp] theorem toList_name (letter : Letter) : letter.name.toList = [letter.toChar] := by
  simp [name]

theorem ofName?_eq_some_iff {text : String} {letter : Letter} :
    ofName? text = some letter ↔ text = letter.name := by
  rw [← String.toList_inj, toList_name, ofName?]
  constructor
  · intro h
    unfold ofChars? at h
    split at h
    · rename_i c hc
      rw [hc, toChar_of_ofChar? h]
    · exact absurd h (by simp)
  · intro h
    rw [h, ofChars?, ofChar?_toChar]

@[simp] theorem ofName?_name (letter : Letter) : ofName? letter.name = some letter :=
  ofName?_eq_some_iff.mpr rfl

end Letter

namespace Operator

@[simp] theorem ofSymbol?_symbol (op : Operator) : ofSymbol? op.symbol = some op := by
  cases op <;> decide

theorem symbol_injective : Function.Injective symbol := by
  intro first second h
  have hread := ofSymbol?_symbol first
  rw [h, ofSymbol?_symbol] at hread
  exact (Option.some.inj hread).symm

theorem ofSymbol?_eq_some_iff {text : String} {op : Operator} :
    ofSymbol? text = some op ↔ text = op.symbol := by
  constructor
  · intro h
    have hsymbol := List.find?_some h
    simpa using Eq.symm (by simpa using hsymbol)
  · rintro rfl
    exact ofSymbol?_symbol op

end Operator

namespace Token

-- The tokens that have a meaning of their own, so that their texts are read as themselves.
def IsKnown : Token → Prop
  | .blank | .unknown _ => False
  | _ => True

private theorem ofText?_operator (op : Operator) : Numeral.ofText? op.symbol = none := by
  cases op <;> decide

private theorem ofText?_letter (letter : Letter) : Numeral.ofText? letter.name = none := by
  obtain ⟨index⟩ := letter
  revert index
  decide

private theorem ofSymbol?_letter (letter : Letter) : Operator.ofSymbol? letter.name = none := by
  obtain ⟨index⟩ := letter
  revert index
  decide

private theorem letter_ne_mark (letter : Letter) : letter.name ≠ assignMark := by
  obtain ⟨index⟩ := letter
  revert index
  decide

private theorem text_ne_empty {text : String} (h : text.toList ≠ []) : text ≠ "" := by
  rintro rfl
  exact h rfl

theorem read_numeral (numeral : Numeral) : read numeral.text = .number numeral := by
  have hne : numeral.text ≠ "" := text_ne_empty (by simp [numeral.toChars_ne_nil])
  simp [read, hne]

theorem read_symbol (op : Operator) : read op.symbol = .operator op := by
  have hne : op.symbol ≠ "" := by cases op <;> decide
  simp [read, hne, ofText?_operator]

theorem read_mark : read assignMark = .assign := by decide

theorem read_name (letter : Letter) : read letter.name = .variable letter := by
  have hne : letter.name ≠ "" := text_ne_empty (by simp)
  simp [read, hne, ofText?_letter, ofSymbol?_letter, isAssign, letter_ne_mark]

theorem read_text (token : Token) (hknown : token.IsKnown) : read token.text = token := by
  cases token with
  | blank => exact hknown.elim
  | number numeral => exact read_numeral numeral
  | operator op => exact read_symbol op
  | assign => exact read_mark
  | «variable» letter => exact read_name letter
  | unknown text => exact hknown.elim

-- Reading forgets nothing.
@[simp] theorem text_read (text : String) : (read text).text = text := by
  unfold read
  split
  · rename_i hempty
    exact hempty.symm
  split
  · rename_i numeral hnumeral
    exact (Numeral.ofText?_eq_some_iff.mp hnumeral).symm
  split
  · rename_i op hop
    exact (Operator.ofSymbol?_eq_some_iff.mp hop).symm
  split
  · rename_i hmark
    exact (eq_of_beq hmark).symm
  split
  · rename_i letter hletter
    exact (Letter.ofName?_eq_some_iff.mp hletter).symm
  · rfl

theorem read_eq_iff {text : String} {token : Token} (hknown : token.IsKnown) :
    read text = token ↔ text = token.text := by
  constructor
  · rintro rfl
    exact (text_read text).symm
  · rintro rfl
    exact read_text token hknown

-- A character that no token with a meaning has in its text makes a text unknown.
theorem read_eq_unknown {text : String} {c : Char} (hc : c ∈ text.toList)
    (hforeign : ∀ token : Token, token.IsKnown → c ∉ token.text.toList) :
    read text = .unknown text := by
  have htext := text_read text
  generalize read text = token at htext ⊢
  subst htext
  cases token with
  | blank => exact absurd hc (by simp [Token.text])
  | unknown other => rfl
  | number | operator | assign | «variable» => exact absurd hc (hforeign _ trivial)

theorem e_not_mem_text (token : Token) (hknown : token.IsKnown) : 'e' ∉ token.text.toList := by
  cases token with
  | blank => exact hknown.elim
  | number numeral =>
      intro hmem
      rw [text, Numeral.toList_text] at hmem
      rcases Numeral.mem_toChars hmem with h | h | ⟨digit, h⟩
      · exact absurd h (by decide)
      · exact absurd h (by decide)
      · revert h digit
        decide
  | operator op => cases op <;> decide
  | assign => decide
  | «variable» letter =>
      obtain ⟨index⟩ := letter
      clear hknown
      revert index
      decide
  | unknown text => exact hknown.elim

theorem isBlank_digit (digit : Digit) : Text.isBlank (Decimal.toChar digit) = false := by
  revert digit
  decide

private theorem isBlank_numeral {numeral : Numeral} {c : Char} (hc : c ∈ numeral.toChars) :
    Text.isBlank c = false := by
  rcases Numeral.mem_toChars hc with rfl | rfl | ⟨digit, rfl⟩
  · decide
  · decide
  · exact isBlank_digit digit

private theorem isBlank_letter (letter : Letter) : Text.isBlank letter.toChar = false := by
  obtain ⟨index⟩ := letter
  revert index
  decide

theorem isWord_text (token : Token) (hknown : token.IsKnown) : Text.IsWord token.text.toList := by
  cases token with
  | blank => exact hknown.elim
  | number numeral =>
      simp only [text, Numeral.toList_text]
      exact ⟨numeral.toChars_ne_nil, fun c hc => isBlank_numeral hc⟩
  | operator op => cases op <;> decide
  | assign => decide
  | «variable» letter =>
      simp only [text, Letter.toList_name]
      exact ⟨by simp, by simpa using isBlank_letter letter⟩
  | unknown text => exact hknown.elim

end Token

end PostfixCalc
