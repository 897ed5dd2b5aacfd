import PostfixCalc.Binary64
import PostfixCalc.FixedPoint

namespace PostfixCalc.Binary64

def isOddInteger : Binary64 → Bool
  | .finite _ rank => quanta rank % oneQuanta == 0 && quanta rank / oneQuanta % 2 == 1
  | _ => false

-- Beyond this size of the exponent of e the result is past both ends of the range.
def exponentBound : Int := 800 * FixedPoint.unit

-- Significant binary places kept of a power before it is rounded. A power that is a binary64
-- value, or halfway between two, has at most 54, so that it is met exactly.
def powerPlaces : Nat := 200

-- (base quanta) to the power of (exponent quanta), negated or not, as exp (exponent · log base).
-- The exponential is taken of the part left after whole multiples of log 2.
def magnitudePower (negative : Bool) (base : Nat) (exponent : Int) : Binary64 :=
  let log := FixedPoint.logNat base - 1074 * FixedPoint.logTwo
  let product := log * exponent / oneQuanta
  if exponentBound < product then .infinity negative
  else if product < -exponentBound then zero negative
  else
    let doublings := product / FixedPoint.logTwo
    let fraction := FixedPoint.exp (product - doublings * FixedPoint.logTwo)
    let places := nearestEven fraction.toNat (Nat.pow 2 (FixedPoint.scale - powerPlaces))
    let shift := doublings + 1074 - powerPlaces
    ofQuanta negative (places * Nat.pow 2 shift.toNat) (Nat.pow 2 (-shift).toNat)

-- A power whose size is unbounded, or vanishes.
def limitPower (negative grows : Bool) : Binary64 :=
  if grows then .infinity negative else zero negative

-- Raising to a power. Anything to the power of zero is one, and so is every power of one, even
-- with NaN on the other side. A negative base keeps its sign under an odd whole exponent and
-- has no power for an exponent that is not whole.
def pow (base exponent : Binary64) : Binary64 :=
  if exponent.isZero || base = one then one
  else
    let negative := base.isNegative && exponent.isOddInteger
    match base, exponent with
    | .nan, _ => .nan
    | _, .nan => .nan
    | .infinity _, .infinity falling => limitPower false (!falling)
    | .infinity _, .finite falling _ => limitPower negative (!falling)
    | .finite _ rank, .infinity falling =>
      if rank.val = oneRank then one
      else limitPower false (decide (oneRank < rank.val) != falling)
    | .finite baseNegative rank, .finite falling exponentRank =>
      if rank.val = 0 then limitPower negative falling
      else if baseNegative && !exponent.isInteger then .nan
      else
        magnitudePower negative (quanta rank)
          (if falling then -(quanta exponentRank : Int) else quanta exponentRank)

end PostfixCalc.Binary64
