import Mathlib.Data.Int.Order.Lemmas
import PostfixCalc.Binary64.Arithmetic
import PostfixCalc.Proofs.Binary64.Nearest

namespace PostfixCalc.Binary64

theorem quanta_eq_zero_iff (rank : Nat) : quanta rank = 0 ↔ rank = 0 := by
  rw [← quanta_zero]
  exact quanta_strictMono.injective.eq_iff

theorem natAbs_signedQuanta (negative : Bool) (rank : Fin overflowRank) :
    (signedQuanta negative rank).natAbs = quanta rank := by
  cases negative <;> simp [signedQuanta]

theorem signedQuanta_eq_zero_iff (negative : Bool) (rank : Fin overflowRank) :
    signedQuanta negative rank = 0 ↔ rank.val = 0 := by
  rw [← Int.natAbs_eq_zero, natAbs_signedQuanta, quanta_eq_zero_iff]

theorem decide_signedQuanta_neg (negative : Bool) {rank : Fin overflowRank} (hrank : rank.val ≠ 0) :
    decide (signedQuanta negative rank < 0) = negative := by
  have hpos : 0 < quanta rank := Nat.pos_of_ne_zero (mt (quanta_eq_zero_iff rank).mp hrank)
  cases negative <;> simp [signedQuanta, hpos]

theorem signed_div (negative : Bool) (x y : ℚ) : signed negative (x / y) = signed negative x / y := by
  cases negative <;> simp [signed, neg_div]

-- Counted in quanta, the number that a value stands for is whole.
theorem cast_signedQuanta (negative : Bool) (rank : Fin overflowRank) :
    (signedQuanta negative rank : ℚ) / oneQuanta = signed negative (magnitude rank) := by
  have hcast : (signedQuanta negative rank : ℚ) = signed negative (quanta rank) := by
    cases negative <;> simp [signedQuanta, signed]
  rw [magnitude, signed_div, hcast]

-- The sign that rounding gives to a whole number of quanta.
def signOf (zeroNegative : Bool) (value : Int) : Bool :=
  if value = 0 then zeroNegative else value < 0

theorem signOf_eq {negative : Bool} {value : Int}
    (h : value ≠ 0 → decide (value < 0) = negative) : signOf negative value = negative := by
  unfold signOf
  split
  · rfl
  · rename_i hvalue
    exact h hvalue

theorem ofSignedQuanta_eq (zeroNegative : Bool) (value : Int) :
    ofSignedQuanta zeroNegative value = ofQuanta (signOf zeroNegative value) value.natAbs 1 := by
  by_cases hvalue : value = 0
  · have hrank : nearestRank (Int.natAbs 0) 1 = (⟨0, by decide⟩ : Fin overflowRank).val :=
      nearestRank_zero 1 (by decide)
    rw [ofSignedQuanta, signOf, hvalue, if_pos rfl, if_pos rfl]
    exact (ofQuanta_eq zeroNegative hrank).symm
  · rw [ofSignedQuanta, signOf, if_neg hvalue, if_neg hvalue]

theorem signed_signOf (zeroNegative : Bool) (value : Int) :
    signed (signOf zeroNegative value) (ofQuotient value.natAbs 1) = (value : ℚ) / oneQuanta := by
  rw [ofQuotient, Nat.cast_one, div_one, Nat.cast_natAbs, Int.cast_abs, signed_div]
  congr 1
  by_cases hvalue : value = 0
  · rw [hvalue, Int.cast_zero, abs_zero]
    cases zeroNegative <;> simp [signOf, signed]
  · have habs := signed_abs (value : ℚ)
    simp only [Int.cast_lt_zero] at habs
    rw [signOf, if_neg hvalue, habs]

theorem ofSignedQuanta_of_ne_zero (first second : Bool) {value : Int} (hvalue : value ≠ 0) :
    ofSignedQuanta first value = ofSignedQuanta second value := by
  rw [ofSignedQuanta, ofSignedQuanta, if_neg hvalue, if_neg hvalue]

-- Whole numbers of quanta are rounded once.
theorem isRounding_ofSignedQuanta (zeroNegative : Bool) (value : Int) :
    IsRounding ((value : ℚ) / oneQuanta) (ofSignedQuanta zeroNegative value) := by
  rw [ofSignedQuanta_eq, ← signed_signOf zeroNegative]
  exact isRounding_ofQuanta _ (by decide)

-- What a value stands for is rounded to the value, but the sign of a zero is the one given.
theorem ofSignedQuanta_signedQuanta (negative : Bool) (rank : Fin overflowRank) :
    ofSignedQuanta negative (signedQuanta negative rank) = .finite negative rank := by
  have hsign : signOf negative (signedQuanta negative rank) = negative := by
    apply signOf_eq
    rw [Ne, signedQuanta_eq_zero_iff]
    exact decide_signedQuanta_neg negative
  have hrank := nearestRank_quanta rank 1 (by decide)
  rw [Nat.mul_one] at hrank
  rw [ofSignedQuanta_eq, hsign, natAbs_signedQuanta]
  exact ofQuanta_eq negative hrank

end PostfixCalc.Binary64
