import PostfixCalc.Proofs.Bindings
import PostfixCalc.Proofs.Machine.Literal
import PostfixCalc.Session
import PostfixCalc.Unguarded

namespace PostfixCalc

namespace Binary64

variable {q : ℚ} {value : Binary64}

-- An infinity has the sign of the number, too.
theorem RoundsTo.eq_infinity_iff (h : RoundsTo q value) {negative : Bool} :
    value = .infinity negative ↔ negative = decide (q < 0) ∧ overflowBound ≤ |q| := by
  have hrounding : IsRounding (signed (decide (q < 0)) |q|) value := by
    rw [signed_abs]
    exact h.1
  rw [← IsRounding.eq_infinity_iff (abs_nonneg q) hrounding h.2]
  constructor
  · rintro rfl
    have hsign : negative = decide (q < 0) := h.2
    exact ⟨hsign, by rw [← hsign]⟩
  · rintro ⟨rfl, hvalue⟩
    exact hvalue

end Binary64

namespace Quantity

variable {n : Int}

end Quantity

-- The numeral with which a whole number is written.
def Numeral.ofInt (n : Int) : Numeral :=
  ⟨decide (n < 0), Decimal.digits n.natAbs, [], Decimal.digits_ne_nil _⟩

-- What an assignment from outside comes to, and the machine that it leaves behind: as one step, and
-- as an action in which each change stays that is made before a failure.
structure Machine.Assigns [Power] (machine : Machine) (name : Subject) (value : Quantity)
    (result : Except CallError Unit) (after : Machine) : Prop where
  step : machine.perform (.assign name value) = (after, result.map fun _ => .done)
  action : (Unguarded.enter name value).run.run machine = (result.mapError .call, after)

namespace Machine

variable {value : Quantity}

variable [Power]

theorem assigns_letter (machine : Machine) (letter : Letter) {converted : Binary64}
    (hvalue : value.toBinary64 = .ok converted) :
    machine.Assigns (.text letter.name) value (.ok ())
      { machine with bindings := machine.bindings.set letter converted } where
  step := by
    simp only [perform, machine.bindings.assign_letter letter hvalue]
    rfl
  action := by
    simp only [Unguarded.enter, Bindings.target?, Letter.ofName?_name, hvalue]
    rfl

theorem assigns_refused (machine : Machine) (letter : Letter) {error : CallError}
    (hvalue : value.toBinary64 = .error error) :
    machine.Assigns (.text letter.name) value (.error error) machine where
  step := by
    simp only [perform, Bindings.assign, Bindings.target?, Letter.ofName?_name, hvalue]
    rfl
  action := by
    simp only [Unguarded.enter, Bindings.target?, Letter.ofName?_name, hvalue]
    rfl

-- The value is not looked at.
theorem assigns_invalid (machine : Machine) {name : Subject} (value : Quantity)
    (hname : ∀ letter : Letter, name ≠ .text letter.name) :
    machine.Assigns name value (.error (.evaluation (.invalidTarget name))) machine := by
  have htarget : Bindings.target? name = none :=
    Option.eq_none_iff_forall_ne_some.mpr fun letter hletter =>
      hname letter (Bindings.target?_eq_some_iff.mp hletter)
  constructor
  · simp only [perform, Bindings.assign, htarget]
    rfl
  · simp only [Unguarded.enter, htarget]
    rfl

end Machine

end PostfixCalc
