namespace PostfixCalc

abbrev Digit := Fin 10

namespace Decimal

def zeroDigit : Digit := ⟨0, by decide⟩

-- The ten ASCII digits and no other character.
def ofChar? (c : Char) : Option Digit :=
  if h : '0' ≤ c ∧ c ≤ '9' then
    some ⟨c.toNat - '0'.toNat, by
      have := h.2
      simp only [Char.le_def, UInt32.le_iff_toNat_le] at this
      have h9 : ('9' : Char).val.toNat = 57 := rfl
      have h0 : ('0' : Char).toNat = 48 := rfl
      simp only [Char.toNat, h9] at *
      omega⟩
  else none

def toChar (digit : Digit) : Char := Char.ofNat ('0'.toNat + digit.val)

-- Reads a run of digits; any other character spoils the whole run.
def ofChars? : List Char → Option (List Digit)
  | [] => some []
  | c :: rest =>
    match ofChar? c, ofChars? rest with
    | some digit, some digits => some (digit :: digits)
    | _, _ => none

def toChars (digits : List Digit) : List Char := digits.map toChar

-- The number that digits stand for, most significant first.
def value (digits : List Digit) : Nat := digits.foldl (fun total digit => 10 * total + digit.val) 0

-- The digits of a number, most significant first; zero has one digit.
def digits (n : Nat) : List Digit :=
  if n < 10 then [Fin.ofNat 10 n] else digits (n / 10) ++ [Fin.ofNat 10 n]

def digitCount (n : Nat) : Nat :=
  if n < 10 then 1 else digitCount (n / 10) + 1

-- Digits without the zeros at their end.
def stripZeros (digits : List Digit) : List Digit :=
  (digits.reverse.dropWhile (·.val == 0)).reverse

def natText (n : Nat) : List Char := toChars (digits n)

def intText (n : Int) : List Char :=
  if n < 0 then '-' :: natText n.natAbs else natText n.natAbs

end Decimal

-- The decimal d₁.d₂d₃... × 10^exponent.
structure Scientific where
  digits : List Digit
  exponent : Int
  deriving DecidableEq

end PostfixCalc
