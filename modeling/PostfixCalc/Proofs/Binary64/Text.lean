import PostfixCalc.Binary64.Text
import PostfixCalc.Proofs.Binary64.Shortest
import PostfixCalc.Proofs.Token

namespace PostfixCalc

namespace Scientific

theorem whole_ne_nil (decimal : Scientific) : decimal.whole ≠ [] := by
  unfold whole
  split
  · simp
  · intro hnil
    have hlength := congrArg List.length hnil
    simp only [List.length_append, List.length_take, List.length_replicate, List.length_nil]
      at hlength
    omega

theorem fraction_ne_nil (decimal : Scientific) (hdigits : decimal.digits ≠ []) :
    decimal.fraction ≠ [] := by
  unfold fraction
  split
  · simp [hdigits]
  · simp only
    split
    · simp
    · assumption

-- The numeral that has the digits of a decimal on either side of its point.
def numeral (decimal : Scientific) (negative : Bool) : Numeral :=
  ⟨negative, decimal.whole, decimal.fraction, decimal.whole_ne_nil⟩

theorem toChars_numeral (decimal : Scientific) (negative : Bool) (hdigits : decimal.digits ≠ []) :
    (decimal.numeral negative).toChars =
      Binary64.signText negative ++ Layout.positional decimal := by
  cases negative <;>
    simp [numeral, Numeral.toChars, Layout.positional, Binary64.signText,
      decimal.fraction_ne_nil hdigits]

-- With the point in front of the digits or between two of them no zero is written behind them.
theorem value_of_point_inside {decimal : Scientific}
    (hinside : decimal.exponent < 0 ∨ decimal.exponent.toNat + 1 < decimal.digits.length) :
    Decimal.value (decimal.whole ++ decimal.fraction) = Decimal.value decimal.digits ∧
      (decimal.fraction.length : Int) = decimal.digits.length - 1 - decimal.exponent := by
  by_cases hsmall : decimal.exponent < 0
  · refine ⟨?_, ?_⟩
    · simp [whole, fraction, hsmall, Decimal.value_cons, Decimal.value_append]
    · simp only [fraction, hsmall, ite_true, List.length_append, List.length_replicate]
      omega
  · have hlong := hinside.resolve_left hsmall
    have hfraction : decimal.fraction = decimal.digits.drop (decimal.exponent.toNat + 1) := by
      have hne : decimal.digits.drop (decimal.exponent.toNat + 1) ≠ [] := by
        simp only [ne_eq, List.drop_eq_nil_iff]
        omega
      simp [fraction, hsmall, hne]
    have hwhole : decimal.whole = decimal.digits.take (decimal.exponent.toNat + 1) := by
      have hpadding : decimal.exponent.toNat + 1 - decimal.digits.length = 0 := by omega
      simp [whole, hsmall, hpadding]
    refine ⟨by rw [hwhole, hfraction, List.take_append_drop], ?_⟩
    rw [hfraction, List.length_drop]
    omega

-- With the point in place, the digits stand for the same number as with the zeros behind them.
theorem value_around_point (decimal : Scientific) (zeros places : Nat)
    (hdigits : decimal.digits ≠ [])
    (hexponent : decimal.exponent = (zeros : Int) + (decimal.digits.length - 1) - places) :
    Decimal.value (decimal.whole ++ decimal.fraction) * 10 ^ places =
      Decimal.value decimal.digits * 10 ^ zeros * 10 ^ decimal.fraction.length := by
  have hlength : 0 < decimal.digits.length := List.length_pos_iff.mpr hdigits
  by_cases hinside : decimal.exponent < 0 ∨ decimal.exponent.toNat + 1 < decimal.digits.length
  · obtain ⟨hvalue, hfraction⟩ := value_of_point_inside hinside
    have hplaces : places = zeros + decimal.fraction.length := by omega
    rw [hvalue, hplaces, Nat.mul_assoc, ← pow_add]
  · -- zeros fill the gap between the digits and the point
    obtain ⟨hsmall, hlong⟩ := not_or.mp hinside
    have hfraction : decimal.fraction = [0] := by
      have hnil : decimal.digits.drop (decimal.exponent.toNat + 1) = [] := by
        simp only [List.drop_eq_nil_iff]
        omega
      simp [fraction, hsmall, hnil]
    have hwhole : decimal.whole = decimal.digits ++
        List.replicate (decimal.exponent.toNat + 1 - decimal.digits.length) 0 := by
      have htake := List.take_of_length_le (Nat.le_of_not_lt hlong)
      simp [whole, hsmall, htake]
    have hzeros : zeros = decimal.exponent.toNat + 1 - decimal.digits.length + places := by omega
    have hone : Decimal.value [0] = 0 := rfl
    rw [hfraction, hwhole, Decimal.value_append, Decimal.value_append, Decimal.value_zeros,
      List.length_replicate, hone, Nat.add_zero, Nat.add_zero, hzeros, pow_add]
    ring

end Scientific

namespace Layout

theorem mem_exponential {layout : Layout} {decimal : Scientific} {c : Char}
    (hc : c ∈ layout.exponential decimal) :
    c ∈ ['.', 'e', '-', '+'] ∨ ∃ digit, c = Decimal.toChar digit := by
  have hdigits : ∀ c ∈ Decimal.toChars decimal.digits, ∃ digit, c = Decimal.toChar digit :=
    fun _ => Decimal.exists_of_mem_toChars
  simp only [exponential, List.mem_append, List.mem_cons] at hc
  rcases hc with hc | rfl | rfl | hc | hc
  · split at hc
    · rename_i first second rest heq
      rw [heq] at hdigits
      rcases List.mem_cons.mp hc with rfl | hc
      · exact .inr (hdigits _ (by simp))
      rcases List.mem_cons.mp hc with rfl | hc
      · exact .inl (by simp)
      · exact .inr (hdigits _ (by simp [List.mem_cons.mp hc]))
    · exact .inr (hdigits _ hc)
  · exact .inl (by simp)
  · left
    split <;> simp
  · exact .inr ⟨0, List.eq_of_mem_replicate hc⟩
  · exact .inr (Decimal.exists_of_mem_toChars hc)

theorem e_mem_exponential (layout : Layout) (decimal : Scientific) :
    'e' ∈ layout.exponential decimal := by
  simp [exponential]

theorem mem_positional {decimal : Scientific} {c : Char} (hc : c ∈ positional decimal) :
    c = '.' ∨ ∃ digit, c = Decimal.toChar digit := by
  rw [positional, List.mem_append, List.mem_cons] at hc
  rcases hc with hc | rfl | hc
  · exact .inr (Decimal.exists_of_mem_toChars hc)
  · exact .inl rfl
  · exact .inr (Decimal.exists_of_mem_toChars hc)

end Layout

-- A number is written with digits and four marks.
theorem Binary64.mem_magnitudeText {rank : Nat} {c : Char} (hc : c ∈ magnitudeText rank) :
    c ∈ ['.', 'e', '-', '+'] ∨ ∃ digit, c = Decimal.toChar digit := by
  unfold magnitudeText Layout.write at hc
  split at hc
  · simp only [List.mem_cons, List.not_mem_nil, or_false] at hc
    rcases hc with rfl | rfl | rfl
    · exact .inr ⟨0, rfl⟩
    · exact .inl (by decide)
    · exact .inr ⟨0, rfl⟩
  · split at hc
    · rcases Layout.mem_positional hc with rfl | hdigit
      · exact .inl (by decide)
      · exact .inr hdigit
    · exact Layout.mem_exponential hc

end PostfixCalc
