import PostfixCalc.Binary64

namespace PostfixCalc.Binary64

-- The exact value of a finite number, in quanta.
def signedQuanta (negative : Bool) (rank : Fin overflowRank) : Int :=
  if negative then -(quanta rank : Int) else quanta rank

-- Rounds an exact number of quanta; the sign of an exact zero is given.
def ofSignedQuanta (zeroNegative : Bool) (value : Int) : Binary64 :=
  if value = 0 then zero zeroNegative else ofQuanta (value < 0) value.natAbs 1

def neg : Binary64 → Binary64
  | .nan => .nan
  | .infinity negative => .infinity (!negative)
  | .finite negative rank => .finite (!negative) rank

-- A sum that is exactly zero is negative only if both summands are.
def add : Binary64 → Binary64 → Binary64
  | .nan, _ => .nan
  | _, .nan => .nan
  | .infinity n₁, .infinity n₂ => if n₁ = n₂ then .infinity n₁ else .nan
  | .infinity n₁, .finite _ _ => .infinity n₁
  | .finite _ _, .infinity n₂ => .infinity n₂
  | .finite n₁ r₁, .finite n₂ r₂ =>
    ofSignedQuanta (n₁ && n₂) (signedQuanta n₁ r₁ + signedQuanta n₂ r₂)

def sub (lhs rhs : Binary64) : Binary64 := add lhs (neg rhs)

-- The product of two counts of quanta counts units of 2^-2148.
def mul : Binary64 → Binary64 → Binary64
  | .nan, _ => .nan
  | _, .nan => .nan
  | .infinity n₁, .infinity n₂ => .infinity (n₁ != n₂)
  | .infinity n₁, .finite n₂ r₂ => if r₂.val = 0 then .nan else .infinity (n₁ != n₂)
  | .finite n₁ r₁, .infinity n₂ => if r₁.val = 0 then .nan else .infinity (n₁ != n₂)
  | .finite n₁ r₁, .finite n₂ r₂ => ofQuanta (n₁ != n₂) (quanta r₁ * quanta r₂) oneQuanta

def div : Binary64 → Binary64 → Binary64
  | .nan, _ => .nan
  | _, .nan => .nan
  | .infinity _, .infinity _ => .nan
  | .infinity n₁, .finite n₂ _ => .infinity (n₁ != n₂)
  | .finite n₁ _, .infinity n₂ => zero (n₁ != n₂)
  | .finite n₁ r₁, .finite n₂ r₂ =>
    if r₂.val = 0 then
      if r₁.val = 0 then .nan else .infinity (n₁ != n₂)
    else ofQuanta (n₁ != n₂) (quanta r₁ * oneQuanta) (quanta r₂)

-- The remainder that follows the sign of the divisor. The truncated remainder is exact; when it
-- lies on the other side of zero than the divisor, the divisor is added and the sum rounded. A
-- zero remainder takes the sign of the divisor. Dividing by an infinity leaves the dividend, or
-- moves it to the divisor itself when the signs differ.
def mod : Binary64 → Binary64 → Binary64
  | .nan, _ => .nan
  | _, .nan => .nan
  | .infinity _, _ => .nan
  | .finite n₁ r₁, .infinity n₂ =>
    if r₁.val = 0 then zero n₂
    else if n₁ = n₂ then .finite n₁ r₁
    else .infinity n₂
  | .finite n₁ r₁, .finite n₂ r₂ =>
    if r₂.val = 0 then .nan
    else
      let divisor := signedQuanta n₂ r₂
      let remainder := (signedQuanta n₁ r₁).tmod divisor
      if remainder ≠ 0 ∧ decide (remainder < 0) ≠ n₂ then
        ofSignedQuanta n₂ (remainder + divisor)
      else ofSignedQuanta n₂ remainder

end PostfixCalc.Binary64
