import PostfixCalc.Binary64.Arithmetic

namespace PostfixCalc.Binary64

-- The remainder of the division whose quotient is cut off towards zero. It has the sign of the
-- dividend, also where it is zero.
def truncatedMod : Binary64 → Binary64 → Binary64
  | .nan, _ => .nan
  | _, .nan => .nan
  | .infinity _, _ => .nan
  | .finite n₁ r₁, .infinity _ => .finite n₁ r₁
  | .finite n₁ r₁, .finite n₂ r₂ =>
    if r₂.val = 0 then .nan
    else ofSignedQuanta n₁ ((signedQuanta n₁ r₁).tmod (signedQuanta n₂ r₂))

-- The remainder with the sign of the divisor, step by step: a zero takes this sign, and what lies on
-- the other side of zero is added to the divisor.
def modBySteps (lhs rhs : Binary64) : Binary64 :=
  let remainder := lhs.truncatedMod rhs
  if remainder.isZero then zero rhs.isNegative
  else if remainder.isNegative = rhs.isNegative then remainder
  else remainder.add rhs

end PostfixCalc.Binary64
