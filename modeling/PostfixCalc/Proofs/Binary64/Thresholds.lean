import PostfixCalc.Binary64.Text
import PostfixCalc.Proofs.Binary64.Shortest

namespace PostfixCalc.Binary64

-- The first magnitude from 10^-4 on.
def leastPlainRank : Nat := 0x3F1A36E2EB1C432D

theorem leastPlainRank_le_iff (rank : Nat) :
    leastPlainRank ≤ rank ↔ oneQuanta ≤ quanta rank * 10 ^ 4 := by
  have hreached : oneQuanta ≤ quanta leastPlainRank * 10 ^ 4 := by decide +kernel
  have hbelow : quanta (leastPlainRank - 1) * 10 ^ 4 < oneQuanta := by decide +kernel
  constructor
  · intro h
    exact hreached.trans (Nat.mul_le_mul_right _ (quanta_strictMono.monotone h))
  · intro h
    by_contra hlt
    have hpred : rank ≤ leastPlainRank - 1 := by omega
    have hmono := Nat.mul_le_mul_right (10 ^ 4) (quanta_strictMono.monotone hpred)
    omega

-- The first of them is written as 10^-4, although it is a little more.
theorem shortest_leastPlainRank : shortest leastPlainRank = ofUnits 1070 1 :=
  shortest_of_found leastPlainRank 1069 1 (by decide +kernel) (by decide +kernel)
    (by decide +kernel)

theorem neg_four_le_exponent_iff (rank : Nat) (hrank : rank ≠ 0) :
    -4 ≤ (shortest rank).exponent ↔ leastPlainRank ≤ rank := by
  obtain ⟨zeros, hdenotes⟩ := exists_denotes_shortest rank hrank
  have hread : nearestRank (10 ^ 1070) quantumUnits = leastPlainRank := by decide +kernel
  constructor
  · intro h
    rw [← hread]
    exact hdenotes.readPower_le 1070 (by omega)
  · intro h
    by_contra hlt
    have hle := hdenotes.le_readPower 1070 (by omega)
    rw [hread] at hle
    obtain rfl := Nat.le_antisymm h hle
    rw [shortest_leastPlainRank] at hlt
    exact hlt (by decide +kernel)

private theorem two_pow_dvd_quanta (rank width : Nat) (h : width ≤ spacingLog rank) :
    Nat.pow 2 width ∣ quanta rank :=
  (Nat.pow_dvd_pow 2 h).mul_left _

-- From 2^52 on every magnitude is a whole number.
theorem oneQuanta_dvd_quanta (rank : Nat) (hrank : 1075 * stretch ≤ rank) :
    oneQuanta ∣ quanta rank := by
  have hspacing : 1074 ≤ spacingLog rank := by
    unfold spacingLog
    simp only [stretch_eq] at hrank ⊢
    omega
  unfold oneQuanta
  generalize 1074 = width at hspacing ⊢
  exact two_pow_dvd_quanta rank width hspacing

-- A magnitude with a fraction is too small for the exponent form.
theorem exponent_lt_sixteen (rank : Nat) (hrank : rank ≠ 0) (hfraction : ¬ oneQuanta ∣ quanta rank) :
    (shortest rank).exponent < 16 := by
  obtain ⟨zeros, hdenotes⟩ := exists_denotes_shortest rank hrank
  have hread : 1075 * stretch ≤ nearestRank (10 ^ 1090) quantumUnits := by decide +kernel
  by_contra h
  have hle := hdenotes.readPower_le 1090 (by omega)
  exact hfraction (oneQuanta_dvd_quanta rank (hread.trans hle))

theorem sixteen_le_exponent (rank : Nat) (hrank : rank ≠ 0)
    (hlarge : wholeLimit * oneQuanta ≤ quanta rank) : 16 ≤ (shortest rank).exponent := by
  obtain ⟨zeros, hdenotes⟩ := exists_denotes_shortest rank hrank
  have hread : quanta (nearestRank (10 ^ 1090) quantumUnits) < wholeLimit * oneQuanta := by
    decide +kernel
  by_contra h
  have hle := hdenotes.le_readPower 1090 (by omega)
  have hmono := quanta_strictMono.monotone hle
  omega

end PostfixCalc.Binary64
