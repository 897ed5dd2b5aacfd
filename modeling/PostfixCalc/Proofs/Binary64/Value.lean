import Mathlib.Algebra.Order.Field.Rat
import Mathlib.Algebra.Order.Field.Basic
import PostfixCalc.Proofs.Binary64.Rounding

namespace PostfixCalc.Binary64

-- The number that a rank stands for.
def magnitude (rank : Nat) : ℚ := quanta rank / oneQuanta

-- The number that a value stands for.
def toRat? : Binary64 → Option ℚ
  | .finite negative rank => some (if negative then -magnitude rank else magnitude rank)
  | _ => none

theorem oneQuanta_pos : 0 < oneQuanta := by decide +kernel

theorem cast_oneQuanta_ne_zero : (oneQuanta : ℚ) ≠ 0 := Nat.cast_ne_zero.mpr oneQuanta_pos.ne'

theorem magnitude_nonneg (rank : Nat) : 0 ≤ magnitude rank :=
  div_nonneg (Nat.cast_nonneg _) (Nat.cast_nonneg _)

theorem le_magnitude_iff (rank num den : Nat) (hden : 0 < den) :
    (num : ℚ) / den ≤ magnitude rank ↔ num * oneQuanta ≤ quanta rank * den := by
  rw [magnitude, div_le_div_iff₀ (Nat.cast_pos.mpr hden) (Nat.cast_pos.mpr oneQuanta_pos)]
  exact_mod_cast Iff.rfl

theorem magnitude_lt_iff (rank num : Nat) :
    magnitude rank < num ↔ quanta rank < num * oneQuanta := by
  have h := le_magnitude_iff rank num 1 (by decide)
  rw [Nat.cast_one, div_one, Nat.mul_one] at h
  rw [← not_le, ← not_le, h]

theorem magnitude_eq_natCast_iff {rank count : Nat} :
    magnitude rank = count ↔ quanta rank = count * oneQuanta := by
  rw [magnitude, div_eq_iff cast_oneQuanta_ne_zero]
  exact_mod_cast Iff.rfl

theorem abs_toRat? (negative : Bool) (rank : Fin overflowRank) {q : ℚ}
    (hq : toRat? (.finite negative rank) = some q) : |q| = magnitude rank := by
  obtain rfl := Option.some.inj hq
  have hnonneg := magnitude_nonneg rank
  cases negative <;> simp [abs_of_nonneg hnonneg]

end PostfixCalc.Binary64
