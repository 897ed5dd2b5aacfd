namespace PostfixCalc.FixedPoint

-- A real number is carried as a whole number of units of 2^-400. Every step below rounds down to
-- a unit, and a few hundred steps are made, so results are good to about 390 places.
def scale : Nat := 400

def unit : Int := Nat.pow 2 scale

-- term / odd + term · square / (odd + 2) + term · square² / (odd + 4) + ...
def oddSeries (square : Int) : Nat → Int → Nat → Int
  | 0, _, _ => 0
  | count + 1, term, odd => term / odd + oddSeries square count (term * square / unit) (odd + 2)

-- The logarithm of num / den for den ≤ num ≤ 2 · den, as twice the inverse hyperbolic tangent of
-- z = (num - den) / (num + den). As z ≤ 1/3, each term gives more than three binary places.
def logRatio (num den : Nat) : Int :=
  let z := ((num : Int) - den) * unit / (num + den)
  2 * oddSeries (z * z / unit) 130 z 1

def logTwo : Int := logRatio 2 1

-- The logarithm of a positive whole number.
def logNat (value : Nat) : Int :=
  value.log2 * logTwo + logRatio value (Nat.pow 2 value.log2)

-- term + term · x / k + term · x² / (k (k + 1)) + ...
def factorialSeries (x : Int) : Nat → Int → Nat → Int
  | 0, _, _ => 0
  | count + 1, term, k => term + factorialSeries x count (term * x / (unit * k)) (k + 1)

-- The exponential for 0 ≤ x ≤ 1.
def exp (x : Int) : Int := factorialSeries x 100 unit 1

end PostfixCalc.FixedPoint
