import PostfixCalc.Binary64
import PostfixCalc.Decimal

namespace PostfixCalc.Binary64

-- coefficient × 10^exponent, rounded once.
def ofScaled (negative : Bool) (coefficient : Nat) (exponent : Int) : Binary64 :=
  if 0 ≤ exponent then ofDecimal negative (coefficient * Nat.pow 10 exponent.toNat) 0
  else ofDecimal negative coefficient (-exponent).toNat

-- Takes a sign of either kind off a text.
def splitSign : List Char → Bool × List Char
  | '-' :: rest => (true, rest)
  | '+' :: rest => (false, rest)
  | cs => (false, cs)

def isExponentMark (c : Char) : Bool := c == 'e' || c == 'E'

-- An exponent part has digits; where there is no such part the exponent is zero.
def exponent? : List Char → Option Int
  | [] => some 0
  | _ :: rest =>
    let (negative, digits) := splitSign rest
    match Decimal.ofChars? digits with
    | none | some [] => none
    | some digits =>
      some (if negative then -(Decimal.value digits : Int) else Decimal.value digits)

-- A decimal as it is read elsewhere: a sign, digits with perhaps a point before, among or after
-- them, and perhaps an exponent part. It is wider than the numerals of the calculator.
def ofChars? (cs : List Char) : Option Binary64 :=
  let (negative, body) := splitSign cs
  let mantissa := body.takeWhile (!isExponentMark ·)
  let whole := mantissa.takeWhile (· != '.')
  let fraction := (mantissa.dropWhile (· != '.')).drop 1
  match Decimal.ofChars? whole, Decimal.ofChars? fraction,
    exponent? (body.dropWhile (!isExponentMark ·)) with
  | some whole, some fraction, some exponent =>
    if whole ++ fraction = [] then none
    else some (ofScaled negative (Decimal.value (whole ++ fraction)) (exponent - fraction.length))
  | _, _, _ => none

def ofText? (text : String) : Option Binary64 := ofChars? text.toList

end PostfixCalc.Binary64
