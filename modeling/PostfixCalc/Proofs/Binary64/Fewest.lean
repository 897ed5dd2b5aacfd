import PostfixCalc.Proofs.Binary64.Exact
import PostfixCalc.Proofs.Binary64.Grid

namespace PostfixCalc.Binary64

theorem abs_units_sub (units rank : Nat) : |units * decimalUnit - magnitude rank| =
    Nat.dist units (decimalUnits rank) * decimalUnit := by
  have hcast : |(units : ℚ) - decimalUnits rank| = Nat.dist units (decimalUnits rank) := by
    rcases Nat.le_total units (decimalUnits rank) with hle | hle
    · rw [Nat.dist_eq_sub_of_le hle, Nat.cast_sub hle, abs_sub_comm,
        abs_of_nonneg (sub_nonneg.mpr (Nat.cast_le.mpr hle))]
    · rw [Nat.dist_eq_sub_of_le_right hle, Nat.cast_sub hle,
        abs_of_nonneg (sub_nonneg.mpr (Nat.cast_le.mpr hle))]
  rw [magnitude_eq_units, ← sub_mul, abs_mul, hcast, abs_of_pos decimalUnit_pos]

theorem ten_zpow_eq (exponent : ℤ) : (10 : ℚ) ^ exponent = 10 ^ (exponent + 1074) * decimalUnit := by
  have hunit : decimalUnit = 10 ^ (-1074 : ℤ) := by
    rw [decimalUnit, zpow_neg, one_div]
    rfl
  rw [hunit, ← zpow_add₀ (by norm_num)]
  congr 1
  omega

-- Digits on a finer grid than that of a step stay below the power of ten that has as many of them in
-- front of the places of the step.
theorem decimal_le_pow {coefficient width places : Nat} {exponent : ℤ}
    (hdigits : coefficient ≤ 10 ^ (places + 1 - width)) (hwidth : width ≤ places)
    (hfine : exponent + 1074 < width) :
    (coefficient : ℚ) * 10 ^ exponent ≤ ((10 ^ places : Nat) : ℚ) * decimalUnit := by
  have hcoefficient : (coefficient : ℚ) ≤ 10 ^ ((places : ℤ) + 1 - width) := by
    have hcast : (coefficient : ℚ) ≤ ((10 ^ (places + 1 - width) : Nat) : ℚ) := Nat.cast_le.mpr hdigits
    have hplaces : ((places + 1 - width : Nat) : ℤ) = places + 1 - width := by omega
    rwa [Nat.cast_pow, Nat.cast_ofNat, ← zpow_natCast, hplaces] at hcast
  have hscale : (10 : ℚ) ^ (exponent + 1074) ≤ 10 ^ ((width : ℤ) - 1) :=
    zpow_le_zpow_right₀ (by norm_num) (by omega)
  have hproduct : (10 : ℚ) ^ ((places : ℤ) + 1 - width) * 10 ^ ((width : ℤ) - 1) = 10 ^ places := by
    rw [← zpow_add₀ (by norm_num), ← zpow_natCast]
    congr 1
    omega
  rw [ten_zpow_eq, ← mul_assoc, Nat.cast_pow, Nat.cast_ofNat, ← hproduct]
  apply mul_le_mul_of_nonneg_right _ decimalUnit_pos.le
  exact mul_le_mul hcoefficient hscale (by positivity) (by positivity)

-- A decimal that is read as a magnitude, with no more digits than the magnitude has behind the places
-- of a step, is matched by a multiple of the step that is as near. If the decimal is no multiple
-- itself, it is below the power of ten that the magnitude begins with.
theorem exists_multiple {rank coefficient width places : Nat} {exponent : ℤ}
    (hread : IsBetweenMiddles (coefficient * 10 ^ exponent) rank)
    (hdigits : (Decimal.digits coefficient).length ≤ places + 1 - width) (hwidth : width ≤ places)
    (hplaces : 10 ^ places ≤ decimalUnits rank) :
    ∃ multiple, ReadsAs rank (multiple * 10 ^ width) ∧
      |((multiple * 10 ^ width : Nat) : ℚ) * decimalUnit - magnitude rank| ≤
        |coefficient * 10 ^ exponent - magnitude rank| := by
  rcases le_or_gt (width : ℤ) (exponent + 1074) with hcoarse | hfine
  · obtain ⟨shift, hshift⟩ : ∃ shift : Nat, exponent + 1074 = (shift + width : Nat) :=
      ⟨(exponent + 1074 - width).toNat, by omega⟩
    have hmultiple : (coefficient : ℚ) * 10 ^ exponent =
        ((coefficient * 10 ^ shift * 10 ^ width : Nat) : ℚ) * decimalUnit := by
      rw [ten_zpow_eq, hshift, zpow_natCast, pow_add]
      push_cast
      ring
    rw [hmultiple] at hread ⊢
    exact ⟨coefficient * 10 ^ shift, readsAs_iff.mpr hread, le_refl _⟩
  · have hpower : 10 ^ (places - width) * 10 ^ width = 10 ^ places := by
      rw [← Nat.pow_add, Nat.sub_add_cancel hwidth]
    have hcoefficient : coefficient ≤ 10 ^ (places + 1 - width) :=
      (Decimal.lt_pow_length_digits coefficient).le.trans (Nat.pow_le_pow_right (by decide) hdigits)
    have hbelow : (coefficient : ℚ) * 10 ^ exponent ≤ ((10 ^ places : Nat) : ℚ) * decimalUnit :=
      decimal_le_pow hcoefficient hwidth hfine
    have habove : ((10 ^ places : Nat) : ℚ) * decimalUnit ≤ magnitude rank := by
      rw [magnitude_eq_units]
      exact mul_le_mul_of_nonneg_right (Nat.cast_le.mpr hplaces) decimalUnit_pos.le
    have hitself := readsAs_iff.mp (readsAs_decimalUnits rank)
    rw [← magnitude_eq_units] at hitself
    refine ⟨10 ^ (places - width), ?_, ?_⟩
    · rw [hpower, readsAs_iff]
      exact hread.of_between hitself hbelow habove
    · rw [hpower, abs_sub_comm, abs_sub_comm _ (magnitude rank),
        abs_of_nonneg (sub_nonneg.mpr habove), abs_of_nonneg (sub_nonneg.mpr (hbelow.trans habove))]
      exact sub_le_sub_left hbelow _

-- Digits of which the last is not zero are no longer than the power of ten that they do not exceed.
theorem length_le_of_value_le {ds : List Digit} {places : Nat} (hplaces : 1 ≤ places)
    (hleading : 10 ^ (ds.length - 1) ≤ Decimal.value ds) (hlast : Decimal.value ds % 10 ≠ 0)
    (hle : Decimal.value ds ≤ 10 ^ places) : ds.length ≤ places := by
  by_contra hlong
  have hpower : 10 ^ places ≤ 10 ^ (ds.length - 1) := Nat.pow_le_pow_right (by decide) (by omega)
  have hvalue : Decimal.value ds = 10 ^ places := Nat.le_antisymm hle (hpower.trans hleading)
  obtain ⟨rest, rfl⟩ := Nat.exists_eq_add_of_le' hplaces
  rw [hvalue, pow_succ, Nat.mul_mod_left] at hlast
  exact hlast rfl

-- Where the search for the digits of a magnitude ends.
theorem exists_found {rank : Nat} (hrank : rank ≠ 0) : ∃ places found,
    IsCoarsest (onGrid? rank) (decimalUnits rank) places found ∧
    10 ^ places ≤ decimalUnits rank ∧ decimalUnits rank < 10 ^ (places + 1) ∧
    shortest rank = ofUnits found.1 found.2 := by
  have hunits : decimalUnits rank ≠ 0 := by
    have hread : ReadsAs rank (decimalUnits rank * 10 ^ 0) := by
      rw [pow_zero, Nat.mul_one]
      exact readsAs_decimalUnits rank
    exact ne_zero_of_readsAs hrank hread
  have hcount := Decimal.digitCount_eq_length (decimalUnits rank)
  have hlow := Decimal.pow_length_digits_le (decimalUnits rank) hunits
  have hhigh := Decimal.lt_pow_length_digits (decimalUnits rank)
  have hpositive := Decimal.length_digits_pos (decimalUnits rank)
  have hcoarsest := isCoarsest_coarsest (onGrid? rank) (decimalUnits rank)
    (Decimal.digitCount (decimalUnits rank) - 1)
  rw [shortest_eq]
  generalize coarsest _ _ _ = found at hcoarsest ⊢
  rw [hcount] at hcoarsest
  refine ⟨_, found, hcoarsest, hlow, ?_, rfl⟩
  rw [Nat.sub_add_cancel hpositive]
  exact hhigh

-- What the digits of a magnitude are worth: in their place they are read as it, their last is not
-- zero, no decimal that is read as it has fewer digits, and none with no more digits is nearer.
structure IsFewest (rank : Nat) (decimal : Scientific) (zeros : Nat) : Prop where
  denotes : Denotes decimal rank zeros
  last : decimal.digits.getLast? ≠ some 0
  fewest : ∀ (coefficient : Nat) (exponent : ℤ),
    IsBetweenMiddles (coefficient * 10 ^ exponent) rank →
      decimal.digits.length ≤ (Decimal.digits coefficient).length
  nearest : ∀ (coefficient : Nat) (exponent : ℤ),
    IsBetweenMiddles (coefficient * 10 ^ exponent) rank →
      (Decimal.digits coefficient).length ≤ decimal.digits.length →
        |((Decimal.value decimal.digits * 10 ^ zeros : Nat) : ℚ) * decimalUnit - magnitude rank| ≤
          |coefficient * 10 ^ exponent - magnitude rank|

theorem exists_isFewest {rank : Nat} (hrank : rank ≠ 0) :
    ∃ zeros, IsFewest rank (shortest rank) zeros := by
  obtain ⟨places, ⟨width, multiple⟩, hfound, hlow, hhigh, hshortest⟩ := exists_found hrank
  have hreads := hfound.readsAs
  have hle := hfound.le_pow hhigh
  simp only at hreads hle
  have hwidth : width ≤ places := hfound.le
  obtain ⟨count, hvalue, hexponent, hleading⟩ :=
    exists_value_ofUnits width (ne_zero_of_readsAs hrank hreads)
  have hlast : (shortest rank).digits.getLast? ≠ some 0 := by
    rw [hshortest]
    exact Decimal.getLast?_stripZeros_ne _
  rw [← hshortest] at hvalue hexponent hleading
  generalize shortest rank = decimal at *
  have hsplit : Decimal.value decimal.digits * 10 ^ (width + count) = multiple * 10 ^ width := by
    rw [pow_add, Nat.mul_comm (10 ^ width), ← Nat.mul_assoc, hvalue]
  have hdenotes : Denotes decimal rank (width + count) := by
    refine ⟨?_, hexponent, hleading⟩
    rw [hsplit]
    exact hreads
  have hlength : decimal.digits.length ≤ places + 1 - width := by
    have hmod := Decimal.value_mod_ten_ne hdenotes.digits_ne_nil hlast
    apply length_le_of_value_le (by omega) hleading hmod
    exact (Nat.le_mul_of_pos_right _ (Nat.pow_pos (by decide))).trans (hvalue.le.trans hle)
  refine ⟨width + count, hdenotes, hlast, ?_, ?_⟩
  · -- fewer digits would have been found on a coarser grid
    intro coefficient exponent hread
    by_contra hfewer
    have hpositive := Decimal.length_digits_pos coefficient
    have hshort : (Decimal.digits coefficient).length ≤ places + 1 - (width + 1) := by omega
    obtain ⟨other, hother, -⟩ := exists_multiple hread hshort (by omega) hlow
    exact hfound.not_readsAs (Nat.lt_succ_self width) (by omega) other hother
  · -- and as many digits are matched on the same grid, where the nearest multiple has been found
    intro coefficient exponent hread hshort
    obtain ⟨other, hother, hnear⟩ := exists_multiple hread (hshort.trans hlength) hwidth hlow
    refine le_trans ?_ hnear
    rw [hsplit, abs_units_sub, abs_units_sub]
    exact mul_le_mul_of_nonneg_right (Nat.cast_le.mpr (hfound.dist_le hother)) decimalUnit_pos.le

end PostfixCalc.Binary64
