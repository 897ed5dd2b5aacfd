import PostfixCalc.Binary64.Shortest
import PostfixCalc.Proofs.Binary64.Rounding
import PostfixCalc.Proofs.Decimal

namespace PostfixCalc.Binary64

theorem quantumUnits_pos : 0 < quantumUnits := by decide +kernel

theorem readsAs_decimalUnits (rank : Nat) : ReadsAs rank (decimalUnits rank) :=
  nearestRank_quanta rank quantumUnits quantumUnits_pos

-- Reading keeps the order.
theorem ReadsAs.le {rank rank' units units' : Nat} (h : ReadsAs rank units)
    (h' : ReadsAs rank' units') (hle : units ≤ units') : rank ≤ rank' := by
  rw [← h, ← h']
  exact nearestRank_mono quantumUnits_pos quantumUnits_pos (Nat.mul_le_mul_right _ hle)

theorem readsAs_onGrid? {rank step multiple : Nat} (h : onGrid? rank step = some multiple) :
    ReadsAs rank (multiple * step) := by
  unfold onGrid? at h
  simp only at h
  split at h
  · rename_i hbelow
    split at h
    · rename_i habove
      obtain rfl := Option.some.inj h
      exact habove.1
    · obtain rfl := Option.some.inj h
      exact hbelow
  · split at h
    · rename_i habove
      obtain rfl := Option.some.inj h
      exact habove
    · exact absurd h (by simp)

-- Whatever holds of the multiples that are found, and of the units themselves, holds of the
-- outcome of the search.
theorem coarsest_satisfies {find? : Nat → Option Nat} {units : Nat} {P : Nat → Prop}
    (hunits : P units) (hfind : ∀ step multiple, find? step = some multiple → P (multiple * step))
    (width : Nat) :
    P ((coarsest find? units width).2 * 10 ^ (coarsest find? units width).1) := by
  induction width with
  | zero => simpa [coarsest] using hunits
  | succ width ih =>
      rw [coarsest]
      split
      · rename_i multiple hfound
        exact hfind _ multiple hfound
      · exact ih

theorem coarsest_of_found {find? : Nat → Option Nat} {units width multiple : Nat}
    (hfound : find? (10 ^ (width + 1)) = some multiple) :
    coarsest find? units (width + 1) = (width + 1, multiple) := by
  rw [coarsest, Nat.pow_eq, hfound]

theorem shortest_eq (rank : Nat) : shortest rank =
    ofUnits (coarsest (onGrid? rank) (decimalUnits rank)
        (Decimal.digitCount (decimalUnits rank) - 1)).1
      (coarsest (onGrid? rank) (decimalUnits rank)
        (Decimal.digitCount (decimalUnits rank) - 1)).2 := rfl

-- No grid is coarser than the one on which the magnitude itself has a single digit.
theorem shortest_of_found (rank place multiple : Nat)
    (hlow : 10 ^ (place + 1) ≤ decimalUnits rank) (hhigh : decimalUnits rank < 10 ^ (place + 2))
    (hfound : onGrid? rank (10 ^ (place + 1)) = some multiple) :
    shortest rank = ofUnits (place + 1) multiple := by
  have hcount := Decimal.digitCount_eq (decimalUnits rank) (place + 1) hlow hhigh
  rw [shortest_eq, hcount, Nat.add_sub_cancel, coarsest_of_found hfound]

-- What is known of the digits that are written for a magnitude: with the given number of zeros
-- behind them they are read as it, in units of 10^-1074.
structure Denotes (decimal : Scientific) (rank zeros : Nat) : Prop where
  reads : ReadsAs rank (Decimal.value decimal.digits * 10 ^ zeros)
  exponent : decimal.exponent = (zeros : Int) + (decimal.digits.length - 1) - 1074
  leading : 10 ^ (decimal.digits.length - 1) ≤ Decimal.value decimal.digits

-- The digits that are written, with the zeros that are left away, make the multiple.
theorem exists_value_ofUnits (width : Nat) {multiple : Nat} (hmultiple : multiple ≠ 0) :
    ∃ count, Decimal.value (ofUnits width multiple).digits * 10 ^ count = multiple ∧
      (ofUnits width multiple).exponent = ((width + count : Nat) : Int) +
        ((ofUnits width multiple).digits.length - 1) - 1074 ∧
      10 ^ ((ofUnits width multiple).digits.length - 1) ≤
        Decimal.value (ofUnits width multiple).digits := by
  obtain ⟨count, hdigits⟩ := Decimal.exists_stripZeros (Decimal.digits multiple)
  unfold ofUnits
  simp only
  generalize Decimal.stripZeros (Decimal.digits multiple) = stripped at hdigits ⊢
  have hvalue : multiple = Decimal.value stripped * 10 ^ count := by
    have h := Decimal.value_digits multiple
    rw [hdigits, Decimal.value_append, Decimal.value_zeros, List.length_replicate] at h
    omega
  have hlength : (Decimal.digits multiple).length = stripped.length + count := by
    rw [hdigits, List.length_append, List.length_replicate]
  have hleading := Decimal.pow_length_digits_le multiple hmultiple
  have hnonempty : 0 < stripped.length := by
    apply List.length_pos_iff.mpr
    rintro rfl
    simp [hvalue] at hmultiple
  refine ⟨count, hvalue.symm, ?_, ?_⟩
  · simp only [hlength]
    push_cast
    omega
  · have hsplit : stripped.length + count - 1 = (stripped.length - 1) + count := by omega
    rw [hlength, hsplit, pow_add, hvalue] at hleading
    exact Nat.le_of_mul_le_mul_right hleading (Nat.pow_pos (by decide))

theorem ne_zero_of_readsAs {rank width multiple : Nat} (hrank : rank ≠ 0)
    (hreads : ReadsAs rank (multiple * 10 ^ width)) : multiple ≠ 0 := by
  rintro rfl
  rw [Nat.zero_mul] at hreads
  exact hrank (hreads.symm.trans (nearestRank_zero quantumUnits quantumUnits_pos))

theorem exists_denotes_ofUnits {rank width multiple : Nat} (hrank : rank ≠ 0)
    (hreads : ReadsAs rank (multiple * 10 ^ width)) :
    ∃ zeros, Denotes (ofUnits width multiple) rank zeros := by
  obtain ⟨count, hvalue, hexponent, hleading⟩ :=
    exists_value_ofUnits width (ne_zero_of_readsAs hrank hreads)
  refine ⟨width + count, ?_, hexponent, hleading⟩
  rw [pow_add, Nat.mul_comm (10 ^ width), ← Nat.mul_assoc, hvalue]
  exact hreads

theorem exists_denotes_shortest (rank : Nat) (hrank : rank ≠ 0) :
    ∃ zeros, Denotes (shortest rank) rank zeros := by
  have hreads := coarsest_satisfies (P := ReadsAs rank) (readsAs_decimalUnits rank)
    (fun _ _ => readsAs_onGrid?) (Decimal.digitCount (decimalUnits rank) - 1)
  exact exists_denotes_ofUnits hrank hreads

namespace Denotes

variable {decimal : Scientific} {rank zeros : Nat}

theorem digits_ne_nil (h : Denotes decimal rank zeros) : decimal.digits ≠ [] := by
  intro hnil
  have hleading := h.leading
  simp [hnil] at hleading

theorem length_pos (h : Denotes decimal rank zeros) : 0 < decimal.digits.length :=
  List.length_pos_iff.mpr h.digits_ne_nil

-- The first digit is not zero and stands in the place that the exponent names.
theorem bounds (h : Denotes decimal rank zeros) : ∃ place : Nat,
    decimal.exponent = (place : Int) - 1074 ∧
    10 ^ place ≤ Decimal.value decimal.digits * 10 ^ zeros ∧
    Decimal.value decimal.digits * 10 ^ zeros < 10 ^ (place + 1) := by
  have hlength := h.length_pos
  refine ⟨decimal.digits.length - 1 + zeros, ?_, ?_, ?_⟩
  · rw [h.exponent]
    omega
  · rw [pow_add]
    exact Nat.mul_le_mul_right _ h.leading
  · have hplace : decimal.digits.length - 1 + zeros + 1 = decimal.digits.length + zeros := by omega
    rw [hplace, pow_add]
    exact Nat.mul_lt_mul_of_pos_right (Decimal.value_lt _) (Nat.pow_pos (by decide))

-- Magnitudes and exponents are in the same order as powers of ten and their places.
theorem readPower_le (h : Denotes decimal rank zeros) (place : Nat)
    (hplace : (place : Int) - 1074 ≤ decimal.exponent) :
    nearestRank (10 ^ place) quantumUnits ≤ rank := by
  obtain ⟨own, hown, hlow, -⟩ := h.bounds
  have hpower : 10 ^ place ≤ 10 ^ own := Nat.pow_le_pow_right (by decide) (by omega)
  exact ReadsAs.le rfl h.reads (hpower.trans hlow)

theorem le_readPower (h : Denotes decimal rank zeros) (place : Nat)
    (hplace : decimal.exponent < (place : Int) - 1074) :
    rank ≤ nearestRank (10 ^ place) quantumUnits := by
  obtain ⟨own, hown, -, hhigh⟩ := h.bounds
  have hpower : 10 ^ (own + 1) ≤ 10 ^ place := Nat.pow_le_pow_right (by decide) (by omega)
  exact ReadsAs.le h.reads rfl (hhigh.le.trans hpower)

end Denotes

end PostfixCalc.Binary64
