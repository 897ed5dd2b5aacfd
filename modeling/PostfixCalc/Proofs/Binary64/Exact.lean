import Mathlib.Algebra.Order.Field.Power
import PostfixCalc.Proofs.Binary64.Display
import PostfixCalc.Proofs.Binary64.Nearest
import PostfixCalc.Proofs.Binary64.Reading

namespace PostfixCalc

namespace Binary64

theorem ofQuotient_mul_oneQuanta (coefficient scale : Nat) :
    ofQuotient (coefficient * oneQuanta) (Nat.pow 10 scale) = (coefficient : ℚ) / 10 ^ scale := by
  have hone := cast_oneQuanta_ne_zero
  rw [ofQuotient, Nat.pow_eq, Nat.cast_mul, Nat.cast_pow, Nat.cast_ofNat, div_right_comm,
    mul_div_cancel_right₀ _ hone]

-- A decimal fraction is rounded correctly. Only a zero could have the wrong sign.
theorem roundsTo_ofDecimal {negative : Bool} {coefficient : Nat} (scale : Nat)
    (hsign : negative = true → coefficient ≠ 0) :
    RoundsTo (signed negative ((coefficient : ℚ) / 10 ^ scale))
      (ofDecimal negative coefficient scale) := by
  rw [← ofQuotient_mul_oneQuanta]
  apply roundsTo_ofQuanta (Nat.pow_pos (by decide))
  intro hnegative
  exact Nat.mul_ne_zero (hsign hnegative) oneQuanta_pos.ne'

end Binary64

namespace Scaled

-- The number that the text stands for, exactly.
def toRat (scaled : Scaled) : ℚ :=
  Binary64.signed scaled.negative (scaled.coefficient * (10 : ℚ) ^ scaled.exponent)

theorem roundsTo_round (scaled : Scaled)
    (hsign : scaled.negative = true → scaled.coefficient ≠ 0) :
    Binary64.RoundsTo scaled.toRat scaled.round := by
  obtain ⟨negative, coefficient, exponent⟩ := scaled
  simp only [toRat, round]
  rcases Int.eq_nat_or_neg exponent with ⟨scale, rfl | rfl⟩
  · have hscaled : negative = true → coefficient * 10 ^ scale ≠ 0 :=
      fun hnegative => Nat.mul_ne_zero (hsign hnegative) (Nat.pow_pos (by decide)).ne'
    have hround := Binary64.roundsTo_ofDecimal 0 hscaled
    simpa [Binary64.ofScaled] using hround
  · have hround := Binary64.roundsTo_ofDecimal scale hsign
    rw [Binary64.ofScaled_neg, zpow_neg, zpow_natCast, ← div_eq_mul_inv]
    exact hround

-- A text that has no digit other than zero is read as the zero with its sign.
theorem round_of_coefficient_eq_zero {scaled : Scaled} (hzero : scaled.coefficient = 0) :
    scaled.round = Binary64.zero scaled.negative := by
  have hdecimal (scale : Nat) : Binary64.ofDecimal scaled.negative 0 scale =
      Binary64.zero scaled.negative := by
    apply Binary64.ofQuanta_eq
    rw [Nat.zero_mul]
    exact Binary64.nearestRank_zero _ (Nat.pow_pos (by decide))
  unfold round Binary64.ofScaled
  simp only [hzero, Nat.zero_mul, hdecimal, ite_self]

end Scaled

namespace Layout

-- The end of a text in exponent form.
def exponentPart (layout : Layout) (exponent : Int) : List Char :=
  'e' :: (if exponent < 0 then '-' else '+') ::
    (List.replicate (layout.exponentDigits - (Decimal.natText exponent.natAbs).length) '0' ++
      Decimal.natText exponent.natAbs)

theorem exponential_eq (layout : Layout) {decimal : Scientific} {first : Digit}
    {rest : List Digit} (hdigits : decimal.digits = first :: rest) (negative : Bool) :
    Binary64.signText negative ++ layout.exponential decimal =
      (Numeral.mk negative [first] rest (by simp)).toChars ++
        layout.exponentPart decimal.exponent := by
  rw [exponential, exponentPart, hdigits]
  cases rest <;> simp [Numeral.toChars, Binary64.signText, Decimal.toChars]

-- The zeros before an exponent do not count.
private theorem exponent?_padded (negative : Bool) (padding size : Nat) :
    Binary64.exponent? ('e' :: (if negative then '-' else '+') ::
        (List.replicate padding '0' ++ Decimal.natText size)) =
      some (if negative then -(size : Int) else size) := by
  have hchars : List.replicate padding '0' ++ Decimal.natText size =
      Decimal.toChars (List.replicate padding 0 ++ Decimal.digits size) := by
    have hzero : Decimal.toChar 0 = '0' := rfl
    rw [Decimal.natText, Decimal.toChars, Decimal.toChars, List.map_append, List.map_replicate,
      hzero]
  have hvalue : Decimal.value (List.replicate padding 0 ++ Decimal.digits size) = size := by
    rw [Decimal.value_append, Decimal.value_zeros, Decimal.value_digits, Nat.zero_mul,
      Nat.zero_add]
  have hne : List.replicate padding 0 ++ Decimal.digits size ≠ [] := by
    simp [Decimal.digits_ne_nil]
  rw [hchars]
  generalize List.replicate padding 0 ++ Decimal.digits size = digits at hvalue hne ⊢
  have hsign : Binary64.splitSign ((if negative then '-' else '+') :: Decimal.toChars digits) =
      (negative, Decimal.toChars digits) := by
    cases negative <;> rfl
  obtain ⟨digit, digits, rfl⟩ := List.exists_cons_of_ne_nil hne
  simp only [Binary64.exponent?, hsign, Decimal.ofChars?_toChars, hvalue]

theorem exponent?_exponentPart (layout : Layout) (exponent : Int) :
    Binary64.exponent? (layout.exponentPart exponent) = some exponent := by
  have hpadded := exponent?_padded (decide (exponent < 0))
    (layout.exponentDigits - (Decimal.natText exponent.natAbs).length) exponent.natAbs
  simp only [decide_eq_true_eq] at hpadded
  rw [exponentPart, hpadded]
  split <;> congr 1 <;> omega

-- A text in exponent form is read digit for digit.
theorem scaled_exponential (layout : Layout) {decimal : Scientific} (hdigits : decimal.digits ≠ [])
    (negative : Bool) :
    Scaled.ofChars? (Binary64.signText negative ++ layout.exponential decimal) =
      some ⟨negative, Decimal.value decimal.digits,
        decimal.exponent - (decimal.digits.length - 1 : Nat)⟩ := by
  obtain ⟨first, rest, heq⟩ := List.exists_cons_of_ne_nil hdigits
  have hmark : ∀ c ∈ (layout.exponentPart decimal.exponent).head?,
      Binary64.isExponentMark c = true := by
    simp [exponentPart, Binary64.isExponentMark]
  rw [layout.exponential_eq heq,
    Binary64.scaled_numeral_append _ hmark (layout.exponent?_exponentPart decimal.exponent), heq]
  rfl

end Layout

namespace Binary64

-- Zeros behind the digits shift the point.
theorem ofScaled_sub (negative : Bool) (coefficient zeros places : Nat) :
    ofScaled negative coefficient ((zeros : Int) - places) =
      ofDecimal negative (coefficient * 10 ^ zeros) places := by
  rcases Nat.le_total places zeros with hle | hle
  · obtain ⟨rest, rfl⟩ := Nat.exists_eq_add_of_le hle
    have hrest : ((places + rest : Nat) : Int) - places = rest := by omega
    rw [hrest, ofScaled, if_pos (by omega), Int.toNat_natCast]
    apply ofQuanta_congr (Nat.pow_pos (by decide)) (Nat.pow_pos (by decide))
    simp only [Nat.pow_eq]
    ring
  · obtain ⟨rest, rfl⟩ := Nat.exists_eq_add_of_le hle
    have hrest : (zeros : Int) - (zeros + rest : Nat) = -(rest : Int) := by omega
    rw [hrest, ofScaled_neg]
    apply ofQuanta_congr (Nat.pow_pos (by decide)) (Nat.pow_pos (by decide))
    ring

-- The digits of a magnitude are read as it in exponent form, too.
theorem round_denotes {decimal : Scientific} {rank : Fin overflowRank} {zeros : Nat}
    (h : Denotes decimal rank zeros) (negative : Bool) :
    (Scaled.mk negative (Decimal.value decimal.digits)
      (decimal.exponent - (decimal.digits.length - 1 : Nat))).round = .finite negative rank := by
  have hlength := h.length_pos
  have hexponent : decimal.exponent - (decimal.digits.length - 1 : Nat) =
      (zeros : Int) - (1074 : Nat) := by
    rw [h.exponent]
    omega
  rw [Scaled.round, hexponent, ofScaled_sub]
  apply ofQuanta_eq
  rw [← h.reads]
  apply nearestRank_congr (Nat.pow_pos (by decide)) quantumUnits_pos
  rw [Nat.mul_assoc, oneQuanta_mul_quantumUnits]

theorem scaled_display (negative : Bool) (rank : Fin overflowRank) :
    ∃ scaled, Scaled.ofText? (Binary64.finite negative rank).display = some scaled ∧
      scaled.round = withoutZeroSign (.finite negative rank) := by
  by_cases hplain : IsPlain (.finite negative rank)
  · obtain ⟨numeral, hdisplay, hvalue⟩ := exists_numeral_of_isPlain _ hplain
    rw [hdisplay, scaled_numeral]
    refine ⟨_, rfl, ?_⟩
    rw [← hvalue, Scaled.round, ofScaled_neg]
    rfl
  · obtain ⟨hrank, hdisplay⟩ := display_of_not_isPlain negative rank hplain
    obtain ⟨zeros, hdenotes⟩ := exists_denotes_shortest rank hrank
    rw [hdisplay, Scaled.ofText?, String.toList_ofList,
      layout.scaled_exponential hdenotes.digits_ne_nil]
    refine ⟨_, rfl, ?_⟩
    rw [round_denotes hdenotes]
    simp [withoutZeroSign, isZero, hrank]

@[simp] theorem withoutZeroSign_nan : withoutZeroSign .nan = .nan := rfl

@[simp] theorem withoutZeroSign_infinity (negative : Bool) :
    withoutZeroSign (.infinity negative) = .infinity negative := rfl

@[simp] theorem withoutZeroSign_finite (negative : Bool) (rank : Fin overflowRank) :
    withoutZeroSign (.finite negative rank) = .finite (negative && rank.val != 0) rank := by
  by_cases hrank : rank.val = 0
  · have heq : rank = ⟨0, by decide⟩ := Fin.ext hrank
    simp [withoutZeroSign, isZero, zero, heq]
  · simp [withoutZeroSign, isZero, hrank]

-- The text of a finite value stands for a number that rounds to the value, and to no other.
theorem roundsTo_scaled_display (negative : Bool) (rank : Fin overflowRank) :
    ∃ scaled, Scaled.ofText? (Binary64.finite negative rank).display = some scaled ∧
      ∀ other, RoundsTo scaled.toRat other ↔ other = withoutZeroSign (.finite negative rank) := by
  obtain ⟨scaled, hscaled, hround⟩ := scaled_display negative rank
  have hsign : scaled.negative = true → scaled.coefficient ≠ 0 := by
    intro hnegative hzero
    rw [Scaled.round_of_coefficient_eq_zero hzero, hnegative, withoutZeroSign_finite, zero,
      finite.injEq] at hround
    obtain ⟨hnegative, rfl⟩ := hround
    simp at hnegative
  have hrounds := scaled.roundsTo_round hsign
  rw [hround] at hrounds
  refine ⟨scaled, hscaled, fun other => ⟨fun h => h.unique hrounds, ?_⟩⟩
  rintro rfl
  exact hrounds

-- Equality of numbers: zero has no sign there, and NaN is equal to nothing.
def NumericallyEqual (first second : Binary64) : Prop :=
  (∃ q, first.toRat? = some q ∧ second.toRat? = some q) ∨
    ∃ negative, first = .infinity negative ∧ second = .infinity negative

theorem numericallyEqual_finite_iff {first second : Bool} {rank place : Fin overflowRank} :
    NumericallyEqual (.finite first rank) (.finite second place) ↔
      signed first (magnitude rank) = signed second (magnitude place) := by
  simp [NumericallyEqual, toRat?_finite, eq_comm]

theorem signed_eq_iff {first second : Bool} {rank place : Nat} :
    signed first (magnitude rank) = signed second (magnitude place) ↔
      rank = place ∧ (first = second ∨ rank = 0) := by
  constructor
  · intro h
    have habs := congrArg abs h
    rw [abs_signed first (magnitude_nonneg rank), abs_signed second (magnitude_nonneg place)] at habs
    have heq : rank = place := magnitude_strictMono.injective habs
    refine ⟨heq, ?_⟩
    rw [← heq] at h
    by_cases hsign : first = second
    · exact .inl hsign
    · right
      rw [← magnitude_eq_zero_iff]
      have hopposite : second = !first := Bool.eq_not.mpr (Ne.symm hsign)
      have hnegated : signed (!first) (magnitude rank) = -signed first (magnitude rank) := by
        cases first <;> simp [signed]
      have hzero : signed first (magnitude rank) = 0 := by
        rw [hopposite, hnegated] at h
        linarith
      rw [← abs_signed first (magnitude_nonneg rank), hzero, abs_zero]
  · rintro ⟨rfl, rfl | rfl⟩
    · rfl
    · rw [magnitude_zero]
      cases first <;> cases second <;> simp [signed]

theorem withoutZeroSign_eq_iff (first second : Binary64) :
    first.withoutZeroSign = second.withoutZeroSign ↔
      first = .nan ∧ second = .nan ∨ first.NumericallyEqual second := by
  cases first with
  | nan => cases second <;> simp [NumericallyEqual, toRat?]
  | infinity negative => cases second <;> simp [NumericallyEqual, toRat?, eq_comm]
  | finite negative rank =>
      cases second with
      | nan => simp [NumericallyEqual, toRat?]
      | infinity other => simp [NumericallyEqual, toRat?]
      | finite other place =>
          simp only [numericallyEqual_finite_iff, withoutZeroSign_finite, finite.injEq,
            signed_eq_iff, reduceCtorEq, false_and, false_or, Fin.val_inj]
          constructor
          · rintro ⟨hsign, rfl⟩
            refine ⟨rfl, ?_⟩
            by_cases hrank : rank.val = 0
            · exact .inr hrank
            · left
              rwa [bne_iff_ne.mpr hrank, Bool.and_true, Bool.and_true] at hsign
          · rintro ⟨rfl, rfl | hrank⟩
            · exact ⟨rfl, rfl⟩
            · simp [hrank]

theorem display_withoutZeroSign (value : Binary64) :
    value.withoutZeroSign.display = value.display := by
  cases value with
  | nan => rfl
  | infinity negative => rfl
  | finite negative rank =>
      rw [withoutZeroSign_finite, display_finite, display_finite]
      by_cases hrank : rank.val = 0
      · simp [hrank, isWhole_zero, quanta_zero]
      · rw [bne_iff_ne.mpr hrank, Bool.and_true]

-- Reading a result gives the value back, and tells the words for the other values from numbers.
theorem ofText?_display_finite (negative : Bool) (rank : Fin overflowRank) :
    ofText? (Binary64.finite negative rank).display =
      some (withoutZeroSign (.finite negative rank)) := by
  obtain ⟨scaled, hscaled, hround⟩ := scaled_display negative rank
  rw [ofText?_eq, hscaled, Option.map_some, hround]

theorem ofText?_display_nan : ofText? nan.display = none := by decide

theorem ofText?_display_infinity (negative : Bool) :
    ofText? (infinity negative).display = none := by
  cases negative <;> decide

theorem eq_of_display_infinity_eq : ∀ first second : Bool,
    (infinity first).display = (infinity second).display → first = second := by decide

theorem withoutZeroSign_eq_of_display_eq {first second : Binary64}
    (h : first.display = second.display) : first.withoutZeroSign = second.withoutZeroSign := by
  have hread := congrArg ofText? h
  cases first with
  | nan =>
      cases second with
      | nan => rfl
      | infinity other => cases other <;> exact absurd h (by decide)
      | finite other place => simp [ofText?_display_nan, ofText?_display_finite] at hread
  | infinity negative =>
      cases second with
      | nan => cases negative <;> exact absurd h (by decide)
      | infinity other => rw [eq_of_display_infinity_eq negative other h]
      | finite other place => simp [ofText?_display_infinity, ofText?_display_finite] at hread
  | finite negative rank =>
      cases second with
      | nan => simp [ofText?_display_nan, ofText?_display_finite] at hread
      | infinity other => simp [ofText?_display_infinity, ofText?_display_finite] at hread
      | finite other place =>
          rw [ofText?_display_finite, ofText?_display_finite] at hread
          exact Option.some.inj hread

end Binary64

-- What is printed of a finite value names one number, and the number rounds to that value alone.
-- So the texts of two values differ unless the values are equal as numbers, or both no number.
theorem display_lossless :
    (∀ (negative : Bool) (rank : Fin Binary64.overflowRank),
      ∃ scaled, Scaled.ofText? (Binary64.finite negative rank).display = some scaled ∧
        ∀ value, Binary64.RoundsTo scaled.toRat value ↔
          value = (Binary64.finite negative rank).withoutZeroSign) ∧
    Binary64.nan.display = "NaN" ∧
    (Binary64.infinity false).display = "Infinity" ∧
    (Binary64.infinity true).display = "-Infinity" ∧
    ∀ first second : Binary64, first.display = second.display ↔
      first = .nan ∧ second = .nan ∨ first.NumericallyEqual second := by
  refine ⟨Binary64.roundsTo_scaled_display, rfl, rfl, rfl, ?_⟩
  intro first second
  rw [← Binary64.withoutZeroSign_eq_iff]
  constructor
  · exact Binary64.withoutZeroSign_eq_of_display_eq
  · intro h
    rw [← first.display_withoutZeroSign, h, second.display_withoutZeroSign]

end PostfixCalc
