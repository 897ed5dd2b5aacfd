import PostfixCalc.Binary64.Shortest

namespace PostfixCalc

namespace Scientific

-- The digits before the point and those after it, when the point is in place. There is at least
-- one on both sides.
def whole (decimal : Scientific) : List Digit :=
  if decimal.exponent < 0 then [Decimal.zeroDigit]
  else
    let width := decimal.exponent.toNat + 1
    decimal.digits.take width ++ List.replicate (width - decimal.digits.length) Decimal.zeroDigit

def fraction (decimal : Scientific) : List Digit :=
  if decimal.exponent < 0 then
    List.replicate (-decimal.exponent - 1).toNat Decimal.zeroDigit ++ decimal.digits
  else
    let rest := decimal.digits.drop (decimal.exponent.toNat + 1)
    if rest = [] then [Decimal.zeroDigit] else rest

end Scientific

-- Decimal exponents from here on are written without an exponent part, and those before `upTo`.
structure Layout where
  positionalFrom : Int
  positionalUpTo : Int
  exponentDigits : Nat

namespace Layout

def positional (decimal : Scientific) : List Char :=
  Decimal.toChars decimal.whole ++ '.' :: Decimal.toChars decimal.fraction

-- The exponent has a sign and a least number of digits; a single digit has no point.
def exponential (layout : Layout) (decimal : Scientific) : List Char :=
  let mantissa :=
    match Decimal.toChars decimal.digits with
    | first :: second :: rest => first :: '.' :: second :: rest
    | digits => digits
  let size := Decimal.natText decimal.exponent.natAbs
  mantissa ++ 'e' :: (if decimal.exponent < 0 then '-' else '+') ::
    (List.replicate (layout.exponentDigits - size.length) '0' ++ size)

def write (layout : Layout) (decimal : Scientific) : List Char :=
  if layout.positionalFrom ≤ decimal.exponent ∧ decimal.exponent < layout.positionalUpTo then
    positional decimal
  else layout.exponential decimal

end Layout

namespace Binary64

-- Numbers from 10^-4 up to 10^16 are written without an exponent.
def layout : Layout := ⟨-4, 16, 2⟩

def magnitudeText (rank : Nat) : List Char :=
  if rank = 0 then ['0', '.', '0'] else layout.write (shortest rank)

def signText (negative : Bool) : List Char := if negative then ['-'] else []

-- The text of a number in records and listings: the shortest that reads back, always with a
-- point or an exponent.
def text : Binary64 → String
  | .nan => "nan"
  | .infinity negative => if negative then "-inf" else "inf"
  | .finite negative rank => String.ofList (signText negative ++ magnitudeText rank)

-- From this size on whole numbers are no longer written out.
def wholeLimit : Nat := Nat.pow 10 21

-- Finite, and less than the limit in magnitude.
def isBelow (limit : Nat) : Binary64 → Bool
  | .finite _ rank => quanta rank < limit * oneQuanta
  | _ => false

-- The text of a result. Whole numbers below the limit show all their digits and no point, and
-- zero shows no sign.
def display : Binary64 → String
  | .nan => "NaN"
  | .infinity negative => if negative then "-Infinity" else "Infinity"
  | .finite negative rank =>
    let whole := quanta rank / oneQuanta
    if quanta rank % oneQuanta = 0 ∧ whole < wholeLimit then
      String.ofList (signText (negative && whole != 0) ++ Decimal.natText whole)
    else String.ofList (signText negative ++ magnitudeText rank)

end Binary64

end PostfixCalc
