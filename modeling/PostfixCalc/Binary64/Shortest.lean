import PostfixCalc.Binary64
import PostfixCalc.Decimal

namespace PostfixCalc.Binary64

-- A quantum is so many units of 10^-1074.
def quantumUnits : Nat := Nat.pow 5 1074

def decimalUnits (rank : Nat) : Nat := quanta rank * quantumUnits

-- Whether so many units of 10^-1074 are read as the magnitude of this rank.
def ReadsAs (rank units : Nat) : Prop := nearestRank units quantumUnits = rank

instance (rank units : Nat) : Decidable (ReadsAs rank units) :=
  inferInstanceAs (Decidable (_ = _))

-- The multiple of the grid step that is read as the magnitude and is nearest to it, if there is
-- one. Whatever lies between the two multiples around the magnitude is nearer than the others,
-- so only these two are tried. A tie goes to the even multiple.
def onGrid? (rank step : Nat) : Option Nat :=
  let units := decimalUnits rank
  let below := units / step
  let excess := 2 * (units % step)
  if ReadsAs rank (below * step) then
    if ReadsAs rank ((below + 1) * step) ∧
        (step < excess ∨ step = excess ∧ below % 2 = 1) then some (below + 1)
    else some below
  else if ReadsAs rank ((below + 1) * step) then some (below + 1)
  else none

-- The coarsest decimal grid that has a multiple of the wanted kind, among the grids with
-- 10^width, ..., 10 units to the step, with that multiple. The grid of single units has one.
def coarsest (find? : Nat → Option Nat) (units : Nat) : Nat → Nat × Nat
  | 0 => (0, units)
  | width + 1 =>
    match find? (Nat.pow 10 (width + 1)) with
    | some multiple => (width + 1, multiple)
    | none => coarsest find? units width

-- A multiple of 10^width units, written without the zeros at its end.
def ofUnits (width multiple : Nat) : Scientific :=
  let digits := Decimal.digits multiple
  { digits := Decimal.stripZeros digits
    exponent := (width : Int) + (digits.length - 1) - 1074 }

-- The shortest decimal that is read as a magnitude above zero, and of those the nearest to it.
-- Only the one-digit grid can round up to a power of ten, which is then written as 1.
def shortest (rank : Nat) : Scientific :=
  let units := decimalUnits rank
  let found := coarsest (onGrid? rank) units (Decimal.digitCount units - 1)
  ofUnits found.1 found.2

end PostfixCalc.Binary64
