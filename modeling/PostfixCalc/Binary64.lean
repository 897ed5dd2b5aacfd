namespace PostfixCalc

namespace Binary64

-- The finite magnitudes of binary64 are numbered 0, 1, 2, ... in increasing order. The number of
-- a magnitude is its rank; it is also its encoding without the sign bit. Values are counted in
-- quanta of 2^-1074, the smallest positive magnitude, so that every rank stands for a natural
-- number and all arithmetic below is exact. Ranks go on past the largest magnitude, as if the
-- exponent range had no end; overflow is decided afterwards, on the rank.

-- So many magnitudes follow one another before their spacing doubles.
def stretch : Nat := Nat.pow 2 52

-- The first two stretches, the subnormal and the smallest normal magnitudes, have spacing 1.
def spacingLog (rank : Nat) : Nat := rank / stretch - 1

def significand (rank : Nat) : Nat := rank - spacingLog rank * stretch

def quanta (rank : Nat) : Nat := significand rank * Nat.pow 2 (spacingLog rank)

-- The first rank past the largest magnitude.
def overflowRank : Nat := 2047 * stretch

-- One, as a count of quanta and as a rank.
def oneQuanta : Nat := Nat.pow 2 1074

def oneRank : Nat := 1023 * stretch

-- The natural number nearest to num / den; a tie goes to the even neighbour.
def nearestEven (num den : Nat) : Nat :=
  let floor := num / den
  let excess := 2 * (num % den)
  if excess < den then floor
  else if den < excess then floor + 1
  else floor + floor % 2

-- The rank of the magnitude nearest to num / den quanta, ties to the even significand. The
-- quotient is rounded at the spacing of its own stretch; a carry into the next stretch needs no
-- care, because the ranks of two stretches adjoin.
def nearestRank (num den : Nat) : Nat :=
  let spacing := Nat.log2 (num / den) - 52
  nearestEven num (den * Nat.pow 2 spacing) + spacing * stretch

end Binary64

-- The values of binary64. All NaNs are one value: no operation tells two of them apart.
inductive Binary64 where
  | nan
  | infinity (negative : Bool)
  | finite (negative : Bool) (rank : Fin Binary64.overflowRank)
  deriving DecidableEq

namespace Binary64

def zero (negative : Bool) : Binary64 := .finite negative ⟨0, by decide⟩

def one : Binary64 := .finite false ⟨oneRank, by decide⟩

instance : Inhabited Binary64 := ⟨zero false⟩

-- A magnitude of num / den quanta, rounded once. It overflows to infinity exactly when the
-- rounded rank is past the largest magnitude.
def ofQuanta (negative : Bool) (num den : Nat) : Binary64 :=
  if h : nearestRank num den < overflowRank then .finite negative ⟨nearestRank num den, h⟩
  else .infinity negative

-- The value of coefficient / 10^scale, rounded once.
def ofDecimal (negative : Bool) (coefficient scale : Nat) : Binary64 :=
  ofQuanta negative (coefficient * oneQuanta) (Nat.pow 10 scale)

-- A whole number, rounded once; zero has no sign.
def ofInt (value : Int) : Binary64 := ofDecimal (value < 0) value.natAbs 0

def isNegative : Binary64 → Bool
  | .nan => false
  | .infinity negative => negative
  | .finite negative _ => negative

def isZero : Binary64 → Bool
  | .finite _ rank => rank.val == 0
  | _ => false

def isInteger : Binary64 → Bool
  | .finite _ rank => quanta rank % oneQuanta == 0
  | _ => false

-- The weight of the sign bit.
def signWeight : Nat := Nat.pow 2 63

-- The encoding as a 64-bit word; nothing stands for the many encodings of NaN.
def toWord? : Binary64 → Option Nat
  | .nan => none
  | .infinity negative => some (negative.toNat * signWeight + overflowRank)
  | .finite negative rank => some (negative.toNat * signWeight + rank.val)

def ofWord (word : Nat) : Binary64 :=
  let negative := word / signWeight % 2 == 1
  let rank := word % signWeight
  if h : rank < overflowRank then .finite negative ⟨rank, h⟩
  else if rank = overflowRank then .infinity negative
  else .nan

end Binary64

end PostfixCalc
