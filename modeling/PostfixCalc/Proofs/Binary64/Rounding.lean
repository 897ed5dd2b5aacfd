import Mathlib.Tactic.Linarith
import Mathlib.Tactic.Ring
import Mathlib.Order.Monotone.Basic
import PostfixCalc.Binary64

namespace PostfixCalc.Binary64

theorem stretch_eq : stretch = 4503599627370496 := rfl

-- A rank lies in the stretch with the given spacing, counted from the beginning of the stretch
-- before it. The first two stretches have the same spacing.
theorem spacingLog_add (n spacing : Nat) (hhigh : n < 2 * stretch) (hlow : stretch ≤ n ∨ spacing = 0) :
    spacingLog (n + spacing * stretch) = spacing := by
  unfold spacingLog
  have hdiv : (n + spacing * stretch) / stretch = n / stretch + spacing :=
    Nat.add_mul_div_right n spacing (by decide)
  rw [hdiv]
  simp only [stretch_eq] at hhigh hlow ⊢
  omega

theorem quanta_add (n spacing : Nat) (hhigh : n ≤ 2 * stretch) (hlow : stretch ≤ n ∨ spacing = 0) :
    quanta (n + spacing * stretch) = n * 2 ^ spacing := by
  change significand (n + spacing * stretch) * 2 ^ spacingLog (n + spacing * stretch) = _
  rcases hhigh.lt_or_eq with hlt | rfl
  · rw [significand, spacingLog_add n spacing hlt hlow, Nat.add_sub_cancel]
  · have hsplit : 2 * stretch + spacing * stretch = stretch + (spacing + 1) * stretch := by ring
    have hlog := spacingLog_add stretch (spacing + 1) (by decide) (.inl (Nat.le_refl _))
    rw [hsplit, significand, hlog, Nat.add_sub_cancel, pow_succ]
    ring

-- Every rank has its place in a stretch.
theorem exists_add_stretch (rank : Nat) : ∃ n spacing, rank = n + spacing * stretch ∧
    n < 2 * stretch ∧ (stretch ≤ n ∨ spacing = 0) := by
  refine ⟨rank - spacingLog rank * stretch, spacingLog rank, ?_, ?_, ?_⟩
  all_goals
    unfold spacingLog
    simp only [stretch_eq]
    omega

theorem quanta_zero : quanta 0 = 0 := by decide

theorem quanta_succ (rank : Nat) : quanta (rank + 1) = quanta rank + 2 ^ spacingLog rank := by
  obtain ⟨n, spacing, rfl, hhigh, hlow⟩ := exists_add_stretch rank
  rw [spacingLog_add n spacing hhigh hlow, quanta_add n spacing hhigh.le hlow,
    Nat.add_right_comm, quanta_add (n + 1) spacing hhigh (hlow.imp_left Nat.le_succ_of_le)]
  ring

theorem quanta_strictMono : StrictMono quanta := by
  apply strictMono_nat_of_lt_succ
  intro rank
  rw [quanta_succ]
  exact Nat.lt_add_of_pos_right (Nat.two_pow_pos _)

-- Twice the middle between a magnitude and the next one.
def midpoint (rank : Nat) : Nat := quanta rank + quanta (rank + 1)

theorem midpoint_add (n spacing : Nat) (hhigh : n < 2 * stretch) (hlow : stretch ≤ n ∨ spacing = 0) :
    midpoint (n + spacing * stretch) = (2 * n + 1) * 2 ^ spacing := by
  rw [midpoint, quanta_succ, spacingLog_add n spacing hhigh hlow, quanta_add n spacing hhigh.le hlow]
  ring

theorem midpoint_strictMono : StrictMono midpoint := by
  intro first second h
  exact Nat.add_lt_add (quanta_strictMono h) (quanta_strictMono (Nat.succ_lt_succ h))

-- A whole number is the nearest to a quotient if the quotient lies between the middles on either
-- side of it. On such a middle it has to be even.
structure IsNearestWhole (num den n : Nat) : Prop where
  upper : 2 * num < (2 * n + 1) * den ∨ 2 * num = (2 * n + 1) * den ∧ n % 2 = 0
  lower : 2 * n * den < 2 * num + den ∨ 2 * n * den = 2 * num + den ∧ n % 2 = 0

theorem isNearestWhole_nearestEven (num den : Nat) (hden : 0 < den) :
    IsNearestWhole num den (nearestEven num den) := by
  have hsplit : den * (num / den) + num % den = num := Nat.div_add_mod num den
  have hrest : num % den < den := Nat.mod_lt num hden
  unfold nearestEven
  simp only
  generalize num / den = floor at *
  generalize num % den = rest at *
  subst hsplit
  split
  · constructor <;> left <;> linarith
  · split
    · constructor <;> left <;> linarith
    · have htie : 2 * rest = den := by omega
      rcases Nat.mod_two_eq_zero_or_one floor with hparity | hparity
      · rw [hparity, Nat.add_zero]
        exact ⟨.inr ⟨by linarith, hparity⟩, .inl (by linarith)⟩
      · rw [hparity]
        exact ⟨.inl (by linarith), .inr ⟨by linarith, by omega⟩⟩

theorem nearestEven_bounds (num den : Nat) :
    num / den ≤ nearestEven num den ∧ nearestEven num den ≤ num / den + 1 := by
  unfold nearestEven
  simp only
  split
  · omega
  · split <;> omega

-- A magnitude is the nearest to a quotient, counted in quanta.
structure IsNearest (num den rank : Nat) : Prop where
  upper : 2 * num < midpoint rank * den ∨ 2 * num = midpoint rank * den ∧ rank % 2 = 0
  lower : ∀ below, rank = below + 1 →
    midpoint below * den < 2 * num ∨ midpoint below * den = 2 * num ∧ rank % 2 = 0

private theorem parity_add_stretch (n spacing : Nat) : (n + spacing * stretch) % 2 = n % 2 := by
  simp only [stretch_eq]
  omega

private theorem upper_of_nearest (num den n spacing : Nat) (hden : 0 < den)
    (hnearest : IsNearestWhole num (den * 2 ^ spacing) n) (hhigh : n ≤ 2 * stretch)
    (hlow : stretch ≤ n ∨ spacing = 0) :
    2 * num < midpoint (n + spacing * stretch) * den ∨
      2 * num = midpoint (n + spacing * stretch) * den ∧ (n + spacing * stretch) % 2 = 0 := by
  rw [parity_add_stretch]
  rcases hhigh.lt_or_eq with hlt | rfl
  · rw [midpoint_add n spacing hlt hlow, Nat.mul_assoc, Nat.mul_comm (2 ^ spacing)]
    exact hnearest.upper
  · -- a carry: the next spacing is twice as wide
    have hcarry : 2 * stretch + spacing * stretch = stretch + (spacing + 1) * stretch := by ring
    have hpower : 0 < den * 2 ^ spacing := Nat.mul_pos hden (Nat.two_pow_pos _)
    have hwide : (2 * (2 * stretch) + 1) * (den * 2 ^ spacing) <
        (2 * stretch + 1) * 2 ^ (spacing + 1) * den := by
      rw [pow_succ]
      linarith
    rw [hcarry, midpoint_add stretch (spacing + 1) (by decide) (.inl (Nat.le_refl _))]
    exact .inl (by rcases hnearest.upper with h | h <;> omega)

private theorem lower_of_nearest (num den n spacing below : Nat) (hden : 0 < den)
    (hnearest : IsNearestWhole num (den * 2 ^ spacing) n) (hhigh : n ≤ 2 * stretch)
    (hlow : stretch ≤ n ∨ spacing = 0) (hfloor : spacing = 0 ∨ stretch * (den * 2 ^ spacing) ≤ num)
    (hbelow : n + spacing * stretch = below + 1) :
    midpoint below * den < 2 * num ∨
      midpoint below * den = 2 * num ∧ (n + spacing * stretch) % 2 = 0 := by
  rw [parity_add_stretch]
  by_cases hinside : n ≠ 0 ∧ (stretch ≤ n - 1 ∨ spacing = 0)
  · obtain ⟨hn, hlow⟩ := hinside
    obtain ⟨k, rfl⟩ := Nat.exists_eq_succ_of_ne_zero hn
    have hk : below = k + spacing * stretch := by omega
    have hlower := hnearest.lower
    rw [hk, midpoint_add k spacing (by omega) hlow, Nat.mul_assoc, Nat.mul_comm (2 ^ spacing)]
    rcases hlower with h | ⟨h, hparity⟩
    · exact .inl (by linarith)
    · exact .inr ⟨by linarith, hparity⟩
  · -- the stretch begins here: the magnitude below has half the spacing
    have hspacing : spacing ≠ 0 := by
      rintro rfl
      omega
    have hn : n = stretch := by omega
    obtain ⟨s, rfl⟩ := Nat.exists_eq_succ_of_ne_zero hspacing
    have hk : below = (2 * stretch - 1) + s * stretch := by
      rw [hn, Nat.succ_mul] at hbelow
      simp only [stretch_eq] at hbelow ⊢
      omega
    have hpower : 0 < den * 2 ^ s := Nat.mul_pos hden (Nat.two_pow_pos _)
    have hnum := hfloor.resolve_left hspacing
    rw [hk, midpoint_add _ s (by decide) (.inl (by decide))]
    left
    rw [Nat.succ_eq_add_one, pow_succ] at hnum
    simp only [stretch_eq] at hnum ⊢
    linarith

private theorem isNearest_in_stretch (num den n spacing : Nat) (hden : 0 < den)
    (hnearest : IsNearestWhole num (den * 2 ^ spacing) n) (hhigh : n ≤ 2 * stretch)
    (hlow : stretch ≤ n ∨ spacing = 0) (hfloor : spacing = 0 ∨ stretch * (den * 2 ^ spacing) ≤ num) :
    IsNearest num den (n + spacing * stretch) where
  upper := upper_of_nearest num den n spacing hden hnearest hhigh hlow
  lower below := lower_of_nearest num den n spacing below hden hnearest hhigh hlow hfloor

theorem isNearest_nearestRank (num den : Nat) (hden : 0 < den) :
    IsNearest num den (nearestRank num den) := by
  unfold nearestRank
  simp only
  generalize hspacing : Nat.log2 (num / den) - 52 = spacing
  change IsNearest num den (nearestEven num (den * 2 ^ spacing) + spacing * stretch)
  have hscaled : 0 < den * 2 ^ spacing := Nat.mul_pos hden (Nat.two_pow_pos _)
  have hbounds := nearestEven_bounds num (den * 2 ^ spacing)
  have hfloor : num / (den * 2 ^ spacing) = num / den / 2 ^ spacing := (Nat.div_div_eq_div_mul ..).symm
  have hhigh : num / (den * 2 ^ spacing) < 2 * stretch := by
    rw [hfloor, Nat.div_lt_iff_lt_mul (Nat.two_pow_pos _)]
    have hlog := @Nat.lt_log2_self (num / den)
    have hexponent : 2 ^ ((num / den).log2 + 1) ≤ 2 ^ (53 + spacing) :=
      Nat.pow_le_pow_right (by decide) (by omega)
    rw [pow_add 2 53] at hexponent
    simp only [stretch_eq]
    omega
  have hlow : spacing = 0 ∨ stretch ≤ num / (den * 2 ^ spacing) := by
    by_cases hzero : spacing = 0
    · exact .inl hzero
    · right
      have hne : num / den ≠ 0 := by
        intro h
        simp [h] at hspacing
        omega
      rw [hfloor, Nat.le_div_iff_mul_le (Nat.two_pow_pos _)]
      have hlog := Nat.log2_self_le hne
      have hexponent : (num / den).log2 = 52 + spacing := by omega
      rw [hexponent, pow_add] at hlog
      exact hlog
  apply isNearest_in_stretch num den _ spacing hden (isNearestWhole_nearestEven num _ hscaled)
  · omega
  · exact hlow.symm.imp_left fun h => h.trans hbounds.1
  · exact hlow.imp_right fun h => (Nat.le_div_iff_mul_le hscaled).mp h

theorem IsNearest.le {num den num' den' rank rank' : Nat} (hden : 0 < den) (hden' : 0 < den')
    (h : IsNearest num den rank) (h' : IsNearest num' den' rank')
    (hle : num * den' ≤ num' * den) : rank ≤ rank' := by
  by_contra hlt
  obtain ⟨below, rfl⟩ : ∃ below, rank = below + 1 := ⟨rank - 1, by omega⟩
  have hmiddle : midpoint rank' ≤ midpoint below := midpoint_strictMono.monotone (by omega)
  have hlower := h.lower below rfl
  have hupper := h'.upper
  -- both quotients would lie on one and the same middle, between two even magnitudes
  have hscaled : midpoint rank' * den' * den ≤ midpoint below * den * den' := by
    rw [Nat.mul_right_comm]
    exact Nat.mul_le_mul_right den' (Nat.mul_le_mul_right den hmiddle)
  have hfirst : midpoint below * den ≤ 2 * num := by omega
  have hsecond : 2 * num' ≤ midpoint rank' * den' := by omega
  have hfirst' := Nat.mul_le_mul_right den' hfirst
  have hsecond' := Nat.mul_le_mul_right den hsecond
  have heq : 2 * num = midpoint below * den := by
    apply Nat.eq_of_mul_eq_mul_right hden'
    linarith
  have heq' : 2 * num' = midpoint rank' * den' := by
    apply Nat.eq_of_mul_eq_mul_right hden
    linarith
  have hsame : midpoint rank' = midpoint below := by
    apply Nat.eq_of_mul_eq_mul_right (Nat.mul_pos hden' hden)
    linarith
  have hrank := midpoint_strictMono.injective hsame
  omega

theorem nearestRank_mono {num den num' den' : Nat} (hden : 0 < den) (hden' : 0 < den')
    (h : num * den' ≤ num' * den) : nearestRank num den ≤ nearestRank num' den' :=
  (isNearest_nearestRank num den hden).le hden hden' (isNearest_nearestRank num' den' hden') h

theorem nearestRank_congr {num den num' den' : Nat} (hden : 0 < den) (hden' : 0 < den')
    (h : num * den' = num' * den) : nearestRank num den = nearestRank num' den' :=
  Nat.le_antisymm (nearestRank_mono hden hden' h.le) (nearestRank_mono hden' hden h.ge)

theorem isNearest_quanta (rank den : Nat) (hden : 0 < den) :
    IsNearest (quanta rank * den) den rank where
  upper := by
    left
    have hnext := Nat.mul_lt_mul_of_pos_right (quanta_strictMono (Nat.lt_add_one rank)) hden
    simp only [midpoint, Nat.add_mul]
    omega
  lower := by
    rintro below rfl
    left
    have hnext := Nat.mul_lt_mul_of_pos_right (quanta_strictMono (Nat.lt_add_one below)) hden
    simp only [midpoint, Nat.add_mul]
    omega

-- A magnitude is read as itself.
theorem nearestRank_quanta (rank den : Nat) (hden : 0 < den) :
    nearestRank (quanta rank * den) den = rank := by
  have hnearest := isNearest_nearestRank (quanta rank * den) den hden
  have hitself := isNearest_quanta rank den hden
  exact Nat.le_antisymm (hnearest.le hden hden hitself (Nat.le_refl _))
    (hitself.le hden hden hnearest (Nat.le_refl _))

theorem nearestRank_zero (den : Nat) (hden : 0 < den) : nearestRank 0 den = 0 := by
  have h := nearestRank_quanta 0 den hden
  rwa [quanta_zero, Nat.zero_mul] at h

theorem ofQuanta_eq {num den : Nat} {rank : Fin overflowRank} (negative : Bool)
    (h : nearestRank num den = rank.val) : ofQuanta negative num den = .finite negative rank := by
  have hfinite : nearestRank num den < overflowRank := h ▸ rank.isLt
  have hrank : (⟨nearestRank num den, hfinite⟩ : Fin overflowRank) = rank := Fin.ext h
  rw [ofQuanta, dif_pos hfinite, hrank]

end PostfixCalc.Binary64
