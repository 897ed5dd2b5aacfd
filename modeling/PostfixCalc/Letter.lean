import PostfixCalc.Text.Pattern

namespace PostfixCalc

-- One of the 26 variables, A to Z.
structure Letter where
  index : Fin 26
  deriving DecidableEq

namespace Letter

def toChar (letter : Letter) : Char := Char.ofNat ('A'.toNat + letter.index.val)

def name (letter : Letter) : String := String.ofList [letter.toChar]

def ofChar? (c : Char) : Option Letter :=
  if h : 'A'.toNat ≤ c.toNat ∧ c.toNat - 'A'.toNat < 26 then some ⟨⟨c.toNat - 'A'.toNat, h.2⟩⟩
  else none

-- A name is one capital ASCII letter and nothing else.
def ofChars? : List Char → Option Letter
  | [c] => ofChar? c
  | _ => none

def ofName? (name : String) : Option Letter := ofChars? name.toList

def pattern : Pattern := .sequence .start (.sequence (.range 'A' 'Z') .finish)

-- All letters in alphabetical order.
def all : List Letter := (List.finRange 26).map Letter.mk

end Letter

end PostfixCalc
