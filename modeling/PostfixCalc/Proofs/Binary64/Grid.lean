import Mathlib.Data.Nat.Dist
import PostfixCalc.Proofs.Binary64.Display
import PostfixCalc.Proofs.Binary64.Nearest
import PostfixCalc.Proofs.Decimal.Digits

namespace PostfixCalc.Binary64

-- The unit that decimals are counted in, 10^-1074.
def decimalUnit : ℚ := 1 / 10 ^ 1074

theorem decimalUnit_pos : 0 < decimalUnit := by
  unfold decimalUnit
  positivity

theorem ofQuotient_units (units : Nat) : ofQuotient units quantumUnits = units * decimalUnit := by
  have hscale : ((quantumUnits * oneQuanta : Nat) : ℚ) = 10 ^ 1074 := by
    rw [Nat.mul_comm, oneQuanta_mul_quantumUnits, Nat.cast_pow, Nat.cast_ofNat]
  rw [ofQuotient, div_div, ← Nat.cast_mul, hscale, decimalUnit, mul_one_div]

theorem magnitude_eq_units (rank : Nat) : magnitude rank = decimalUnits rank * decimalUnit := by
  have hunits : (quantumUnits : ℚ) ≠ 0 := Nat.cast_ne_zero.mpr quantumUnits_pos.ne'
  rw [← ofQuotient_units, ofQuotient, decimalUnits, Nat.cast_mul, mul_div_cancel_right₀ _ hunits]
  rfl

-- A number of units is read as a magnitude if it lies between the middles around it.
theorem readsAs_iff {rank units : Nat} :
    ReadsAs rank units ↔ IsBetweenMiddles (units * decimalUnit) rank := by
  rw [← ofQuotient_units, ← isNearest_iff quantumUnits_pos]
  have hread := isNearest_nearestRank units quantumUnits quantumUnits_pos
  constructor
  · intro h
    rwa [h] at hread
  · intro h
    exact Nat.le_antisymm (hread.le quantumUnits_pos quantumUnits_pos h (Nat.le_refl _))
      (h.le quantumUnits_pos quantumUnits_pos hread (Nat.le_refl _))

-- Whatever lies between two numbers that are read as a magnitude is read as it, too.
theorem ReadsAs.of_between {rank low units high : Nat} (hlow : ReadsAs rank low)
    (hhigh : ReadsAs rank high) (hle : low ≤ units) (hge : units ≤ high) : ReadsAs rank units :=
  Nat.le_antisymm (ReadsAs.le rfl hhigh hge) (hlow.le rfl hle)

theorem IsBetweenMiddles.of_between {low x high : ℚ} {rank : Nat} (hlow : IsBetweenMiddles low rank)
    (hhigh : IsBetweenMiddles high rank) (hle : low ≤ x) (hge : x ≤ high) :
    IsBetweenMiddles x rank where
  upper := by linarith [hhigh.upper]
  upper_even hmiddle := hhigh.upper_even (by linarith [hhigh.upper])
  lower below hbelow := by linarith [hlow.lower below hbelow]
  lower_even below hbelow hmiddle :=
    hlow.lower_even below hbelow (by linarith [hlow.lower below hbelow])

-- If any multiple of the step is read as the magnitude, one is found, and none of them is nearer.
theorem exists_onGrid {rank step other : Nat} (hstep : 0 < step)
    (hother : ReadsAs rank (other * step)) :
    ∃ multiple, onGrid? rank step = some multiple ∧
      Nat.dist (multiple * step) (decimalUnits rank) ≤
        Nat.dist (other * step) (decimalUnits rank) := by
  have hitself := readsAs_decimalUnits rank
  have hsplit := Nat.div_add_mod' (decimalUnits rank) step
  have hrest := Nat.mod_lt (decimalUnits rank) hstep
  unfold onGrid?
  simp only
  generalize decimalUnits rank = units at *
  generalize units / step = below at *
  generalize units % step = rest at *
  have hnext : (below + 1) * step = below * step + step := Nat.succ_mul below step
  rcases Nat.lt_or_ge below other with habove | hbelow
  · have hle : (below + 1) * step ≤ other * step := Nat.mul_le_mul_right step habove
    have hread : ReadsAs rank ((below + 1) * step) := hitself.of_between hother (by omega) hle
    unfold Nat.dist
    split
    · split
      · exact ⟨_, rfl, by omega⟩
      · rename_i hfar
        have hnear := not_and.mp hfar hread
        exact ⟨_, rfl, by omega⟩
    · exact ⟨_, rfl, by omega⟩
  · have hle : other * step ≤ below * step := Nat.mul_le_mul_right step hbelow
    have hread : ReadsAs rank (below * step) := hother.of_between hitself hle (by omega)
    rw [if_pos hread]
    unfold Nat.dist
    split
    · exact ⟨_, rfl, by omega⟩
    · exact ⟨_, rfl, by omega⟩

theorem onGrid?_le {rank step multiple : Nat} (h : onGrid? rank step = some multiple) :
    multiple ≤ decimalUnits rank / step + 1 := by
  unfold onGrid? at h
  simp only at h
  split at h
  · split at h
    · exact (Option.some.inj h).ge
    · exact (Option.some.inj h).ge.trans (Nat.le_succ _)
  · split at h
    · exact (Option.some.inj h).ge
    · cases h

-- What the search comes to: the multiple that is found on some grid, or else the units, and nothing
-- that could have been found on a coarser grid.
structure IsCoarsest (find? : Nat → Option Nat) (units width : Nat) (found : Nat × Nat) : Prop where
  le : found.1 ≤ width
  here : found = (0, units) ∨ find? (10 ^ found.1) = some found.2
  above : ∀ wider, found.1 < wider → wider ≤ width → find? (10 ^ wider) = none

theorem isCoarsest_coarsest (find? : Nat → Option Nat) (units width : Nat) :
    IsCoarsest find? units width (coarsest find? units width) := by
  induction width with
  | zero => exact ⟨Nat.le_refl 0, .inl rfl, fun wider hlow hhigh => absurd hlow (by omega)⟩
  | succ width ih =>
      rw [coarsest]
      split
      · rename_i multiple hfound
        exact ⟨Nat.le_refl _, .inr hfound, fun wider hlow hhigh => absurd hlow (by omega)⟩
      · rename_i hnone
        refine ⟨ih.le.trans (Nat.le_succ width), ih.here, fun wider hlow hhigh => ?_⟩
        rcases Nat.lt_or_eq_of_le hhigh with hlt | rfl
        · exact ih.above wider hlow (Nat.le_of_lt_succ hlt)
        · exact hnone

namespace IsCoarsest

variable {rank width : Nat} {found : Nat × Nat}
  (h : IsCoarsest (onGrid? rank) (decimalUnits rank) width found)

include h

theorem not_readsAs {wider : Nat} (hlow : found.1 < wider) (hhigh : wider ≤ width) (other : Nat) :
    ¬ ReadsAs rank (other * 10 ^ wider) := by
  intro hother
  obtain ⟨multiple, hmultiple, -⟩ := exists_onGrid (Nat.pow_pos (by decide)) hother
  rw [h.above wider hlow hhigh] at hmultiple
  cases hmultiple

theorem dist_le {other : Nat} (hother : ReadsAs rank (other * 10 ^ found.1)) :
    Nat.dist (found.2 * 10 ^ found.1) (decimalUnits rank) ≤
      Nat.dist (other * 10 ^ found.1) (decimalUnits rank) := by
  rcases h.here with rfl | hfound
  · simp
  · obtain ⟨multiple, hmultiple, hle⟩ := exists_onGrid (Nat.pow_pos (by decide)) hother
    obtain rfl := Option.some.inj (hfound.symm.trans hmultiple)
    exact hle

theorem readsAs : ReadsAs rank (found.2 * 10 ^ found.1) := by
  rcases h.here with rfl | hfound
  · simpa using readsAs_decimalUnits rank
  · exact readsAs_onGrid? hfound

-- The multiple has no more digits than the units have behind the places of the step, or is the power
-- of ten after those.
theorem le_pow (hunits : decimalUnits rank < 10 ^ (width + 1)) :
    found.2 ≤ 10 ^ (width + 1 - found.1) := by
  rcases h.here with rfl | hfound
  · exact hunits.le
  · have hsplit : 10 ^ (width + 1) = 10 ^ found.1 * 10 ^ (width + 1 - found.1) := by
      rw [← Nat.pow_add, Nat.add_sub_cancel' (h.le.trans (Nat.le_succ width))]
    have hlt : decimalUnits rank / 10 ^ found.1 < 10 ^ (width + 1 - found.1) :=
      Nat.div_lt_of_lt_mul (hsplit ▸ hunits)
    exact (onGrid?_le hfound).trans hlt

end IsCoarsest

end PostfixCalc.Binary64
