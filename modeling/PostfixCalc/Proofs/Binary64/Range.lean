import PostfixCalc.Proofs.Binary64.Nearest

namespace PostfixCalc.Binary64

-- The numbers of the format, by their significands of 53 bits and their exponents from -1074 to 971.
def IsRepresentable (x : ℚ) : Prop :=
  ∃ significand exponent : Nat, significand < 2 ^ 53 ∧ exponent ≤ 2045 ∧
    |x| = significand * 2 ^ exponent / 2 ^ 1074

private theorem cast_two_pow (exponent : Nat) : ((Nat.pow 2 exponent : Nat) : ℚ) = 2 ^ exponent := by
  rw [Nat.pow_eq, Nat.cast_pow, Nat.cast_ofNat]

theorem cast_oneQuanta : (oneQuanta : ℚ) = 2 ^ 1074 := by
  unfold oneQuanta
  generalize 1074 = exponent
  exact cast_two_pow exponent

-- A short significand is doubled and its exponent lowered, until one of them is in its place.
theorem exists_rank (significand exponent : Nat) (hshort : significand < 2 * stretch) :
    ∃ rank, rank < (exponent + 2) * stretch ∧ quanta rank = significand * 2 ^ exponent := by
  induction exponent generalizing significand with
  | zero =>
      have hquanta := quanta_add significand 0 hshort.le (.inr rfl)
      rw [Nat.zero_mul, Nat.add_zero] at hquanta
      exact ⟨significand, hshort, hquanta⟩
  | succ exponent ih =>
      by_cases hlong : stretch ≤ significand
      · refine ⟨significand + (exponent + 1) * stretch, ?_, ?_⟩
        · simp only [stretch_eq] at hshort ⊢
          omega
        · exact quanta_add significand (exponent + 1) hshort.le (.inl hlong)
      · obtain ⟨rank, hrank, hquanta⟩ := ih (2 * significand) (by omega)
        refine ⟨rank, ?_, ?_⟩
        · exact hrank.trans_le (Nat.mul_le_mul_right stretch (Nat.le_succ _))
        · rw [hquanta, pow_succ]
          ring

-- The ranks stand for all of them, and for nothing else.
theorem isRepresentable_iff {x : ℚ} : IsRepresentable x ↔
    ∃ negative, ∃ rank : Fin overflowRank, x = signed negative (magnitude rank) := by
  constructor
  · rintro ⟨significand, exponent, hsignificand, hexponent, hx⟩
    obtain ⟨rank, hrank, hquanta⟩ := exists_rank significand exponent hsignificand
    have hfinite : rank < overflowRank :=
      hrank.trans_le (Nat.mul_le_mul_right stretch (by omega : exponent + 2 ≤ 2047))
    have hmagnitude : magnitude rank = |x| := by
      rw [magnitude, hquanta, cast_oneQuanta, hx, Nat.cast_mul, Nat.cast_pow, Nat.cast_ofNat]
    exact ⟨decide (x < 0), ⟨rank, hfinite⟩, by rw [hmagnitude, signed_abs]⟩
  · rintro ⟨negative, ⟨rank, hfinite⟩, rfl⟩
    obtain ⟨n, spacing, rfl, hhigh, hlow⟩ := exists_add_stretch rank
    refine ⟨n, spacing, hhigh, ?_, ?_⟩
    · simp only [overflowRank, stretch_eq] at hfinite hlow
      omega
    · rw [abs_signed negative (magnitude_nonneg _), magnitude, quanta_add n spacing hhigh.le hlow,
        cast_oneQuanta, Nat.cast_mul, Nat.cast_pow, Nat.cast_ofNat]

-- The subnormal and the smallest normal magnitudes are the multiples of 2^-1074.
theorem magnitude_of_le {rank : Nat} (h : rank ≤ 2 * stretch) :
    magnitude rank = rank / 2 ^ 1074 := by
  have hquanta := quanta_add rank 0 h (.inr rfl)
  rw [Nat.zero_mul, Nat.add_zero, pow_zero, Nat.mul_one] at hquanta
  rw [magnitude, hquanta, cast_oneQuanta]

theorem magnitude_stretch : magnitude stretch = 1 / 2 ^ 1022 := by
  have hsplit : (2 : ℚ) ^ 1074 = stretch * 2 ^ 1022 := by
    rw [stretch, cast_two_pow 52]
    exact pow_add 2 52 1022
  have hstretch : (stretch : ℚ) ≠ 0 := by simp [stretch_eq]
  rw [magnitude_of_le (by decide), hsplit, div_mul_cancel_left₀ hstretch, one_div]

theorem one_lt_overflowBound : 1 < overflowBound := by
  have hsplit : (2 : ℚ) ^ 1024 = 2 ^ 970 * 2 ^ 54 := pow_add 2 970 54
  have hone : (1 : ℚ) ≤ 2 ^ 970 := one_le_pow₀ one_le_two
  rw [overflowBound, hsplit]
  generalize (2 : ℚ) ^ 970 = half at hone ⊢
  linarith

private theorem two_pow_inv_le_one (n : Nat) : 1 / (2 : ℚ) ^ n ≤ 1 :=
  div_le_one_of_le₀ (one_le_pow₀ one_le_two) (by positivity)

-- There the middles are half a unit away.
theorem IsBetweenMiddles.abs_sub_le {x : ℚ} {rank : Nat} (hx : 0 ≤ x)
    (h : IsBetweenMiddles x rank) (hnext : rank + 1 ≤ 2 * stretch) :
    |2 ^ 1074 * x - rank| ≤ 1 / 2 := by
  have hunit : (0 : ℚ) < 2 ^ 1074 := by positivity
  have hmagnitude (place : Nat) (hplace : place ≤ rank + 1) := magnitude_of_le (hplace.trans hnext)
  generalize (2 : ℚ) ^ 1074 = unit at hunit hmagnitude ⊢
  have hupper : 2 * (unit * x) ≤ rank + (rank + 1) := by
    have hmiddle := h.upper
    rw [hmagnitude rank (Nat.le_succ _), hmagnitude (rank + 1) (Nat.le_refl _), ← add_div,
      le_div_iff₀ hunit] at hmiddle
    push_cast at hmiddle
    linarith
  have hlower : 2 * (rank : ℚ) - 1 ≤ 2 * (unit * x) := by
    cases rank with
    | zero =>
        have hnonneg := mul_nonneg hunit.le hx
        rw [Nat.cast_zero]
        linarith
    | succ below =>
        have hmiddle := h.lower below rfl
        rw [hmagnitude below (by omega), hmagnitude (below + 1) (by omega), ← add_div,
          div_le_iff₀ hunit] at hmiddle
        push_cast at hmiddle ⊢
        linarith
  rw [abs_le]
  constructor <;> linarith

namespace IsRounding

variable {q x : ℚ} {negative : Bool} {value : Binary64}

-- No number of the format is nearer than the rounding.
theorem nearest (h : IsRounding q value) {v : ℚ} (hv : value.toRat? = some v) {y : ℚ}
    (hy : IsRepresentable y) : |q - v| ≤ |q - y| := by
  obtain ⟨other, place, rfl⟩ := isRepresentable_iff.mp hy
  cases value with
  | nan => exact h.elim
  | infinity negative => exact absurd hv (by simp [toRat?])
  | finite negative rank =>
      obtain rfl := Option.some.inj hv
      exact IsNearestTo.nearest h other place

theorem eq_infinity_iff (hx : 0 ≤ x) (h : IsRounding (signed negative x) value)
    (hsign : value.isNegative = negative) :
    value = .infinity negative ↔ overflowBound ≤ x := by
  rcases h.cases hx hsign with ⟨rfl, hbound⟩ | ⟨rank, rfl, hrank⟩
  · exact iff_of_true rfl hbound
  · have hfinite := (lt_overflowBound_iff hrank).mpr rank.isLt
    exact iff_of_false (by simp) (not_le.mpr hfinite)

-- Half of the smallest magnitude is still rounded to zero, which is even.
theorem eq_zero_iff (hx : 0 ≤ x) (h : IsRounding (signed negative x) value)
    (hsign : value.isNegative = negative) : value = .zero negative ↔ x ≤ 1 / 2 ^ 1075 := by
  have hsmallest : magnitude 0 + magnitude 1 = 2 * (1 / 2 ^ 1075) := by
    have hdouble : (2 : ℚ) ^ 1075 = 2 ^ 1074 * 2 := pow_succ 2 1074
    rw [magnitude_zero, magnitude_of_le (by decide), hdouble, Nat.cast_one]
    generalize (2 : ℚ) ^ 1074 = unit
    ring
  have hone := two_pow_inv_le_one 1075
  generalize 1 / (2 : ℚ) ^ 1075 = half at hsmallest hone ⊢
  rcases h.cases hx hsign with ⟨rfl, hbound⟩ | ⟨rank, rfl, hrank⟩
  · have hlarge := one_lt_overflowBound.trans_le hbound
    exact iff_of_false (by simp [zero]) (not_le.mpr (hone.trans_lt hlarge))
  · have hzero : Binary64.finite negative rank = .zero negative ↔ rank.val = 0 := by
      simp [zero, Fin.ext_iff]
    rw [hzero]
    constructor
    · intro hrank'
      have hupper := hrank.upper
      rw [hrank'] at hupper
      linarith
    · intro hsmall
      have hmiddles : IsBetweenMiddles x 0 := by
        refine ⟨by linarith, fun _ => rfl, ?_, ?_⟩
        · intro below hbelow
          omega
        · intro below hbelow
          omega
      exact Nat.le_zero.mp (hrank.le hmiddles)

-- Below the normal range the number is rounded to the nearest multiple of 2^-1074.
theorem gradual (hx : 0 ≤ x) (h : IsRounding (signed negative x) value)
    (hsign : value.isNegative = negative) (hsmall : x ≤ 1 / 2 ^ 1022) :
    ∃ count : Nat, value.toRat? = some (signed negative (count / 2 ^ 1074)) ∧
      |2 ^ 1074 * x - count| ≤ 1 / 2 := by
  rcases h.cases hx hsign with ⟨rfl, hbound⟩ | ⟨rank, rfl, hrank⟩
  · have hlarge := one_lt_overflowBound.trans_le hbound
    have hone := two_pow_inv_le_one 1022
    exact absurd (hsmall.trans hone) (not_le.mpr hlarge)
  · have hle : rank.val ≤ stretch := by
      by_contra hlt
      have hlower := hrank.le_of_gt (not_le.mp hlt)
      have hmono := magnitude_strictMono (not_le.mp hlt)
      rw [← magnitude_stretch] at hsmall
      linarith
    have hnext : rank.val + 1 ≤ 2 * stretch := hle.trans_lt (by decide)
    refine ⟨rank, ?_, hrank.abs_sub_le hx hnext⟩
    rw [toRat?_finite, magnitude_of_le (Nat.le_of_succ_le hnext)]

end IsRounding

end PostfixCalc.Binary64
