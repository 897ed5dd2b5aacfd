import PostfixCalc.Quantity

namespace PostfixCalc.Operator

-- Numbers that can be converted are only refused as a divisor of zero.
theorem call_eq [Power] (op : Operator) {lhs rhs : Quantity} {left right : Binary64}
    (hleft : lhs.toBinary64 = .ok left) (hright : rhs.toBinary64 = .ok right) :
    op.call lhs rhs =
      match op.compute? left right with
      | some value => .ok value
      | none => .error (.evaluation .divisionByZero) := by
  have hbind {α β : Type} (value : α) (next : α → Except CallError β) :
      (.ok value >>= next) = next value := rfl
  rw [call, hleft, hright]
  by_cases hdiv : op = .div
  · rw [if_pos hdiv, hbind, hbind, hbind]
    obtain rfl := hdiv
    cases hzero : right.isZero with
    | true =>
        simp only [compute?, hzero, ite_true]
        rfl
    | false =>
        simp only [compute?, hzero, Bool.false_eq_true, ite_false]
        rfl
  · rw [if_neg hdiv, hbind, hbind]
    cases op.compute? left right <;> rfl

end PostfixCalc.Operator
