import PostfixCalc.Binary64
import PostfixCalc.Decimal
import PostfixCalc.Text.Pattern

namespace PostfixCalc

-- A number as it is typed: a sign, digits, and perhaps a point with more digits. An empty
-- fraction means that there is no point.
structure Numeral where
  negative : Bool
  whole : List Digit
  fraction : List Digit
  whole_ne_nil : whole ≠ []
  deriving DecidableEq

namespace Numeral

def unsigned? (negative : Bool) (body : List Char) : Option Numeral :=
  match Decimal.ofChars? (body.takeWhile (· != '.')), body.dropWhile (· != '.') with
  | some whole, [] => if h : whole ≠ [] then some ⟨negative, whole, [], h⟩ else none
  | some whole, _ :: rest =>
    match Decimal.ofChars? rest with
    | some fraction =>
      if h : whole ≠ [] then
        if fraction = [] then none else some ⟨negative, whole, fraction, h⟩
      else none
    | none => none
  | none, _ => none

-- Neither a plus sign nor an exponent nor a bare point is part of a numeral.
def ofChars? : List Char → Option Numeral
  | '-' :: rest => unsigned? true rest
  | cs => unsigned? false cs

def ofText? (text : String) : Option Numeral := ofChars? text.toList

def digitsPattern : Pattern := .repeated (.range '0' '9')

def pattern : Pattern :=
  .sequence .start <| .sequence (.optional (.character '-')) <| .sequence digitsPattern <|
    .sequence (.optional (.sequence (.character '.') digitsPattern)) .finish

def toChars (numeral : Numeral) : List Char :=
  (if numeral.negative then ['-'] else []) ++ Decimal.toChars numeral.whole ++
    (if numeral.fraction = [] then [] else '.' :: Decimal.toChars numeral.fraction)

def text (numeral : Numeral) : String := String.ofList numeral.toChars

-- The exact decimal is rounded once; minus zero keeps its sign.
def value (numeral : Numeral) : Binary64 :=
  Binary64.ofDecimal numeral.negative (Decimal.value (numeral.whole ++ numeral.fraction))
    numeral.fraction.length

end Numeral

end PostfixCalc
