import PostfixCalc.Machine
import PostfixCalc.Proofs.Binary64.Exact
import PostfixCalc.Proofs.Binary64.Range
import PostfixCalc.Proofs.Token

namespace PostfixCalc

namespace Numeral

-- The digits before the point, and those behind it as a decimal fraction.
def magnitude (numeral : Numeral) : ℚ :=
  Decimal.value numeral.whole + Decimal.value numeral.fraction / 10 ^ numeral.fraction.length

-- The number that is written, exactly.
def toRat (numeral : Numeral) : ℚ := Binary64.signed numeral.negative numeral.magnitude

-- Rounding to the nearest value, with the sign that is written. So a zero has a sign, too.
structure IsReadAs (numeral : Numeral) (value : Binary64) : Prop where
  rounding : Binary64.IsRounding numeral.toRat value
  sign : value.isNegative = numeral.negative

variable {numeral : Numeral} {value : Binary64}

theorem magnitude_nonneg (numeral : Numeral) : 0 ≤ numeral.magnitude := by
  unfold magnitude
  positivity

theorem abs_toRat (numeral : Numeral) : |numeral.toRat| = numeral.magnitude :=
  Binary64.abs_signed numeral.negative numeral.magnitude_nonneg

-- Without the point the digits make one whole number, which counts units of the last place.
theorem magnitude_eq (numeral : Numeral) : numeral.magnitude =
    Binary64.ofQuotient (Decimal.value (numeral.whole ++ numeral.fraction) * Binary64.oneQuanta)
      (Nat.pow 10 numeral.fraction.length) := by
  have hscale : (10 : ℚ) ^ numeral.fraction.length ≠ 0 := by positivity
  rw [magnitude, Binary64.ofQuotient_mul_oneQuanta, Decimal.value_append, Nat.cast_add,
    Nat.cast_mul, Nat.cast_pow, Nat.cast_ofNat, add_div, mul_div_cancel_right₀ _ hscale]

theorem isReadAs_value (numeral : Numeral) : numeral.IsReadAs numeral.value where
  rounding := by
    rw [toRat, magnitude_eq]
    exact Binary64.isRounding_ofQuanta numeral.negative (Nat.pow_pos (by decide))
  sign := Binary64.isNegative_ofQuanta _ _ _

theorem isReadAs_iff : numeral.IsReadAs value ↔ value = numeral.value := by
  constructor
  · intro h
    have hvalue := numeral.isReadAs_value
    exact h.rounding.unique numeral.magnitude_nonneg h.sign hvalue.rounding hvalue.sign
  · rintro rfl
    exact numeral.isReadAs_value

namespace IsReadAs

theorem eq_infinity_iff (h : numeral.IsReadAs value) :
    value = .infinity numeral.negative ↔ Binary64.overflowBound ≤ |numeral.toRat| := by
  rw [abs_toRat]
  exact Binary64.IsRounding.eq_infinity_iff numeral.magnitude_nonneg h.rounding h.sign

theorem eq_zero_iff (h : numeral.IsReadAs value) :
    value = .zero numeral.negative ↔ |numeral.toRat| ≤ 1 / 2 ^ 1075 := by
  rw [abs_toRat]
  exact Binary64.IsRounding.eq_zero_iff numeral.magnitude_nonneg h.rounding h.sign

theorem gradual (h : numeral.IsReadAs value) (hsmall : |numeral.toRat| ≤ 1 / 2 ^ 1022) :
    ∃ count : Nat, value.toRat? = some (Binary64.signed numeral.negative (count / 2 ^ 1074)) ∧
      |2 ^ 1074 * |numeral.toRat| - count| ≤ 1 / 2 := by
  rw [abs_toRat] at hsmall ⊢
  exact Binary64.IsRounding.gradual numeral.magnitude_nonneg h.rounding h.sign hsmall

end IsReadAs

end Numeral

theorem Machine.step_numeral [Power] (machine : Machine) (numeral : Numeral) :
    machine.step (Token.read numeral.text) =
      ⟨{ machine with stack := .number numeral.value :: machine.stack }, none, []⟩ := by
  rw [Token.read_numeral]
  rfl

-- A literal of any length pushes one value: its exact number correctly rounded, with the sign that is
-- written. No number of the format is nearer. The value is infinite from the middle behind the largest
-- magnitude on, and zero up to half of the smallest one. Below the normal range it is the nearest
-- multiple of the smallest one.
theorem literal_rounded [Power] (machine : Machine) (text : String)
    (h : Token.isNumber text = true) :
    ∃ numeral : Numeral, numeral.text = text ∧ ∃ value : Binary64,
      machine.step (Token.read text) =
        ⟨{ machine with stack := .number value :: machine.stack }, none, []⟩ ∧
      (∀ other, numeral.IsReadAs other ↔ other = value) ∧
      (∀ x, value.toRat? = some x → ∀ y, Binary64.IsRepresentable y →
        |numeral.toRat - x| ≤ |numeral.toRat - y|) ∧
      (value = .infinity numeral.negative ↔ Binary64.overflowBound ≤ |numeral.toRat|) ∧
      (value = .zero numeral.negative ↔ |numeral.toRat| ≤ 1 / 2 ^ 1075) ∧
      (|numeral.toRat| ≤ 1 / 2 ^ 1022 →
        ∃ count : Nat, value.toRat? = some (Binary64.signed numeral.negative (count / 2 ^ 1074)) ∧
          |2 ^ 1074 * |numeral.toRat| - count| ≤ 1 / 2) := by
  obtain ⟨numeral, hnumeral⟩ := Option.isSome_iff_exists.mp h
  obtain rfl := Numeral.ofText?_eq_some_iff.mp hnumeral
  have hread := numeral.isReadAs_value
  refine ⟨numeral, rfl, numeral.value, machine.step_numeral numeral,
    fun _ => Numeral.isReadAs_iff, ?_, hread.eq_infinity_iff, hread.eq_zero_iff, hread.gradual⟩
  intro x hx y hy
  exact hread.rounding.nearest hx hy

-- The first whole number that is out of range, with a minus sign.
theorem literal_rounded_overflow :
    let numeral : Numeral := ⟨true, Decimal.digits (2 ^ 1024 - 2 ^ 970), [], Decimal.digits_ne_nil _⟩
    Token.isNumber numeral.text = true ∧
      (Machine.initial.step (Token.read numeral.text)).machine.stack =
        [.number (.infinity true)] := by
  intro numeral
  have hnumber : Token.isNumber numeral.text = true := by simp [Token.isNumber]
  obtain ⟨other, htext, value, hstep, -, -, hinfinity, -⟩ :=
    literal_rounded Machine.initial numeral.text hnumber
  have hsame : other = numeral := by
    have hread := congrArg Numeral.ofText? htext
    simpa using hread
  have hmagnitude : numeral.magnitude = Binary64.overflowBound := by
    have hle : 2 ^ 970 ≤ 2 ^ 1024 := by apply Nat.pow_le_pow_right <;> decide
    rw [Numeral.magnitude, Binary64.overflowBound, Decimal.value_digits, Nat.cast_sub hle,
      Decimal.value_nil, Nat.cast_zero, zero_div, add_zero, Nat.cast_pow, Nat.cast_pow, Nat.cast_ofNat]
  have hbound : Binary64.overflowBound ≤ |numeral.toRat| := by
    rw [numeral.abs_toRat, hmagnitude]
  rw [hsame] at hinfinity
  refine ⟨hnumber, ?_⟩
  rw [hstep, hinfinity.mpr hbound]
  rfl

end PostfixCalc
