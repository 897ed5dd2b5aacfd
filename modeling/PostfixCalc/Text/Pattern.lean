namespace PostfixCalc

-- A pattern that texts are matched against.
inductive Pattern where
  | start
  | finish
  | character (c : Char)
  | range (low high : Char)
  | sequence (first second : Pattern)
  | optional (inner : Pattern)
  | repeated (inner : Pattern)
  deriving DecidableEq

namespace Pattern

-- Whether an operator behind a pattern acts on all of it.
def isAtom : Pattern → Bool
  | .sequence _ _ | .optional _ | .repeated _ => false
  | _ => true

def grouped (pattern : Pattern) (written : String) : String :=
  if pattern.isAtom then written else "(?:" ++ written ++ ")"

-- The characters that have to be escaped to stand for themselves.
def isReserved (c : Char) : Bool := ".^$*+?()[]\x7b\x7d|\\".toList.contains c

-- How a pattern is written.
def text : Pattern → String
  | .start => "^"
  | .finish => "$"
  | .character c => String.ofList (if isReserved c then ['\\', c] else [c])
  | .range low high => String.ofList ['[', low, '-', high, ']']
  | .sequence first second => first.text ++ second.text
  | .optional inner => inner.grouped inner.text ++ "?"
  | .repeated inner => inner.grouped inner.text ++ "+"

-- One or more pieces in a row. What is before a piece, the piece itself, and what comes after it are
-- told apart.
inductive Repeats (single : List Char → List Char → List Char → Prop) :
    List Char → List Char → List Char → Prop where
  | once (before piece after : List Char) (h : single before piece after) :
      Repeats single before piece after
  | more (before first second after : List Char) (hfirst : single before first (second ++ after))
      (hsecond : Repeats single (before ++ first) second after) :
      Repeats single before (first ++ second) after

-- A pattern matches a piece of a text, depending on what is before and after it. A text is also at
-- its end where only a line feed follows.
def Matches : Pattern → (before piece after : List Char) → Prop
  | .start, before, piece, _ => before = [] ∧ piece = []
  | .finish, _, piece, after => piece = [] ∧ (after = [] ∨ after = ['\n'])
  | .character c, _, piece, _ => piece = [c]
  | .range low high, _, piece, _ => ∃ c, piece = [c] ∧ low ≤ c ∧ c ≤ high
  | .sequence first second, before, piece, after => ∃ left right, piece = left ++ right ∧
      first.Matches before left (right ++ after) ∧ second.Matches (before ++ left) right after
  | .optional inner, before, piece, after => piece = [] ∨ inner.Matches before piece after
  | .repeated inner, before, piece, after => Repeats inner.Matches before piece after

-- All of a text is matched, also a line feed at its end.
def MatchesAll (pattern : Pattern) (text : List Char) : Prop := pattern.Matches [] text []

end Pattern

end PostfixCalc
