import PostfixCalc.Proofs.Binary64.Fewest
import PostfixCalc.Proofs.Binary64.Range

namespace PostfixCalc

namespace Decimal

-- The digits in the text of a decimal, without its exponent part and without the zeros in front.
def significant (text : String) : List Digit :=
  ((text.toList.takeWhile (!Binary64.isExponentMark ·)).filterMap ofChar?).dropWhile (·.val == 0)

theorem filterMap_toChars (ds : List Digit) : (toChars ds).filterMap ofChar? = ds := by
  rw [toChars, List.filterMap_map]
  simp

-- A sign is neither a digit nor the mark of an exponent.
theorem exists_sign (cs : List Char) : ∃ sign, cs = sign ++ (Binary64.splitSign cs).2 ∧
    sign.filterMap ofChar? = [] ∧ ∀ c ∈ sign, (!Binary64.isExponentMark c) = true := by
  unfold Binary64.splitSign
  split
  · exact ⟨['-'], rfl, by decide, by simp [Binary64.isExponentMark]⟩
  · exact ⟨['+'], rfl, by decide, by simp [Binary64.isExponentMark]⟩
  · exact ⟨[], rfl, rfl, by simp⟩

-- These are the digits of the number that all the digits make.
theorem significant_of_scaled {text : String} {scaled : Scaled}
    (h : Scaled.ofText? text = some scaled) (hne : scaled.coefficient ≠ 0) :
    significant text = digits scaled.coefficient := by
  have hsign := exists_sign text.toList
  unfold Scaled.ofText? Scaled.ofChars? at h
  generalize Binary64.splitSign text.toList = parts at h hsign
  obtain ⟨sign, htext, hnodigit, hnomark⟩ := hsign
  simp only at h
  rw [significant, htext, List.takeWhile_append_of_pos hnomark, List.filterMap_append, hnodigit,
    List.nil_append]
  generalize parts.2.takeWhile (!Binary64.isExponentMark ·) = mantissa at h ⊢
  have hmantissa := List.takeWhile_append_dropWhile (p := (· != '.')) (l := mantissa)
  have hpoint := List.head?_dropWhile_not (· != '.') mantissa
  split at h
  · rename_i whole fraction exponent hwhole hfraction hexponent
    split at h
    · cases h
    · obtain rfl := Option.some.inj h
      rw [digits_value hne, ← hmantissa, List.filterMap_append, ofChars?_eq_some_iff.mp hwhole,
        filterMap_toChars]
      congr 2
      rw [ofChars?_eq_some_iff] at hfraction
      cases hrest : mantissa.dropWhile (· != '.') with
      | nil =>
          rw [hrest] at hfraction
          exact (toChars_eq_nil_iff.mp hfraction.symm).symm
      | cons point rest =>
          have hp : point = '.' := by simpa [hrest] using hpoint
          rw [hrest] at hfraction
          change rest = toChars fraction at hfraction
          rw [hp, hfraction]
          exact filterMap_toChars fraction
  · cases h

end Decimal

namespace Binary64

theorem exists_rank_whole {whole : Nat} (hsmall : whole < 2 * stretch) :
    ∃ rank, quanta rank = whole * oneQuanta := by
  unfold oneQuanta
  generalize 1074 = exponent
  obtain ⟨rank, -, hrank⟩ := exists_rank whole exponent hsmall
  exact ⟨rank, hrank⟩

-- A whole number is read as a whole number: a small one as itself, and from 2^53 on there are no others.
theorem oneQuanta_dvd_of_readsAs {rank whole : Nat} (h : ReadsAs rank (whole * 10 ^ 1074)) :
    oneQuanta ∣ quanta rank := by
  rw [← oneQuanta_mul_quantumUnits, ← Nat.mul_assoc] at h
  rcases Nat.lt_or_ge whole (2 * stretch) with hsmall | hlarge
  · obtain ⟨place, hplace⟩ := exists_rank_whole hsmall
    have hitself := readsAs_decimalUnits place
    rw [decimalUnits, hplace] at hitself
    have hsame : rank = place := h.symm.trans hitself
    rw [hsame, hplace]
    exact Nat.dvd_mul_left _ _
  · have hread : 1075 * stretch ≤ nearestRank (2 * stretch * oneQuanta * quantumUnits) quantumUnits := by
      decide +kernel
    have hle : 2 * stretch * oneQuanta * quantumUnits ≤ whole * oneQuanta * quantumUnits :=
      Nat.mul_le_mul_right _ (Nat.mul_le_mul_right _ hlarge)
    exact oneQuanta_dvd_quanta rank (hread.trans (ReadsAs.le rfl h hle))

namespace Denotes

variable {decimal : Scientific} {rank zeros : Nat}

-- The exponent that belongs to the last of the digits.
theorem last_exponent (h : Denotes decimal rank zeros) :
    decimal.exponent - (decimal.digits.length - 1 : Nat) = (zeros : Int) - 1074 := by
  have hlength := h.length_pos
  rw [h.exponent]
  omega

theorem value_mul (h : Denotes decimal rank zeros) :
    (Decimal.value decimal.digits : ℚ) * 10 ^ (decimal.exponent - (decimal.digits.length - 1 : Nat)) =
      ((Decimal.value decimal.digits * 10 ^ zeros : Nat) : ℚ) * decimalUnit := by
  rw [ten_zpow_eq, h.last_exponent, sub_add_cancel, zpow_natCast, ← mul_assoc, Nat.cast_mul,
    Nat.cast_pow, Nat.cast_ofNat]

-- Digits in front of the point alone make a whole number.
theorem oneQuanta_dvd (h : Denotes decimal rank zeros)
    (hwhole : ¬ (decimal.exponent < 0 ∨ decimal.exponent.toNat + 1 < decimal.digits.length)) :
    oneQuanta ∣ quanta rank := by
  have hlast := h.last_exponent
  obtain ⟨count, rfl⟩ : ∃ count, zeros = count + 1074 := ⟨zeros - 1074, by omega⟩
  have hread := h.reads
  rw [pow_add, ← Nat.mul_assoc] at hread
  exact oneQuanta_dvd_of_readsAs hread

end Denotes

theorem isWhole_of_dvd {rank : Nat} (hrank : rank ≠ 0) (hdvd : oneQuanta ∣ quanta rank)
    (hexponent : (shortest rank).exponent < 16) : IsWhole rank := by
  refine ⟨Nat.mod_eq_zero_of_dvd hdvd, ?_⟩
  by_contra hlarge
  have hle : wholeLimit * oneQuanta ≤ quanta rank :=
    (Nat.le_div_iff_mul_le oneQuanta_pos).mp (Nat.le_of_not_lt hlarge)
  exact absurd hexponent (not_lt.mpr (sixteen_le_exponent rank hrank hle))

-- In either form the text of a value that is not written as a whole number has just its shortest
-- digits, with the exponent that belongs to the last of them.
theorem scaled_display_shortest (negative : Bool) {rank : Fin overflowRank} (hwhole : ¬ IsWhole rank) :
    Scaled.ofText? (Binary64.finite negative rank).display =
      some ⟨negative, Decimal.value (shortest rank).digits,
        (shortest rank).exponent - ((shortest rank).digits.length - 1 : Nat)⟩ := by
  obtain ⟨hrank, hdisplay⟩ := display_not_isWhole negative rank hwhole
  obtain ⟨zeros, hdenotes⟩ := exists_denotes_shortest rank hrank
  rw [hdisplay]
  unfold Layout.write
  split
  · rename_i hpositional
    have hinside : (shortest rank).exponent < 0 ∨
        (shortest rank).exponent.toNat + 1 < (shortest rank).digits.length := by
      by_contra hnot
      exact hwhole (isWhole_of_dvd hrank (hdenotes.oneQuanta_dvd hnot) hpositional.2)
    obtain ⟨hvalue, hfraction⟩ := Scientific.value_of_point_inside hinside
    have hlength := hdenotes.length_pos
    have hscaled := scaled_numeral ((shortest rank).numeral negative)
    rw [Numeral.text, Scientific.toChars_numeral _ _ hdenotes.digits_ne_nil] at hscaled
    rw [hscaled]
    simp only [Scientific.numeral, hvalue, hfraction]
    congr 2
    omega
  · rw [Scaled.ofText?, String.toList_ofList]
    exact layout.scaled_exponential hdenotes.digits_ne_nil negative

theorem quanta_eq_of_signed_eq {negative : Bool} {rank : Nat} {n : Int}
    (hn : signed negative (magnitude rank) = n) : quanta rank = n.natAbs * oneQuanta := by
  rw [← magnitude_eq_natCast_iff, ← abs_signed negative (magnitude_nonneg rank), hn, Nat.cast_natAbs,
    Int.cast_abs]

-- The values that are written as whole numbers are the whole numbers below the limit.
theorem isWhole_iff (negative : Bool) (rank : Nat) : IsWhole rank ↔
    (∃ n : Int, signed negative (magnitude rank) = n) ∧
      |signed negative (magnitude rank)| < 10 ^ 21 := by
  have hlimit : quanta rank / oneQuanta < wholeLimit ↔
      |signed negative (magnitude rank)| < 10 ^ 21 := by
    have hcast : (wholeLimit : ℚ) = 10 ^ 21 := by norm_num [wholeLimit]
    rw [abs_signed negative (magnitude_nonneg rank), Nat.div_lt_iff_lt_mul oneQuanta_pos,
      ← magnitude_lt_iff, hcast]
  rw [IsWhole, hlimit]
  apply and_congr_left
  intro _
  constructor
  · intro hmod
    obtain ⟨count, hcount⟩ := Nat.dvd_of_mod_eq_zero hmod
    rw [magnitude_eq_natCast_iff.mpr (hcount.trans (Nat.mul_comm _ _))]
    cases negative with
    | false => exact ⟨count, rfl⟩
    | true => exact ⟨-count, by simp [signed]⟩
  · rintro ⟨n, hn⟩
    rw [quanta_eq_of_signed_eq hn, Nat.mul_mod_left]

-- Whole numbers below the limit are written out.
theorem display_whole_number {negative : Bool} {rank : Fin overflowRank} {n : Int}
    (hn : signed negative (magnitude rank) = n) (hlimit : |n| < 10 ^ 21) :
    (Binary64.finite negative rank).display = toString n := by
  have hdiv : quanta rank / oneQuanta = n.natAbs := by
    rw [quanta_eq_of_signed_eq hn, Nat.mul_div_cancel _ oneQuanta_pos]
  have hwhole : IsWhole rank := by
    rw [isWhole_iff negative]
    refine ⟨⟨n, hn⟩, ?_⟩
    rw [hn]
    exact_mod_cast hlimit
  have hsign : (negative && n.natAbs != 0) = decide (n < 0) := by
    have hnonneg := magnitude_nonneg rank
    cases negative with
    | false =>
        have hn' : 0 ≤ n := by
          rw [← Int.cast_nonneg_iff (R := ℚ), ← hn]
          exact hnonneg
        simp [hn']
    | true =>
        have hn' : n ≤ 0 := by
          rw [← Int.cast_nonpos (R := ℚ), ← hn]
          exact neg_nonpos.mpr hnonneg
        rcases hn'.lt_or_eq with hlt | rfl
        · simp [hlt, hlt.ne]
        · rfl
  rw [display_finite, if_pos hwhole, hdiv, hsign, ← Decimal.ofList_intText, Decimal.intText]
  by_cases hneg : n < 0 <;> simp [hneg, signText]

-- What a decimal that rounds to a magnitude has to do with the middles around it.
theorem RoundsTo.of_finite {q : ℚ} {negative : Bool} {rank : Fin overflowRank}
    (h : RoundsTo q (.finite negative rank)) :
    IsBetweenMiddles |q| rank ∧ q = signed negative |q| := by
  have hsign : negative = decide (q < 0) := h.2
  have hq : q = signed negative |q| := by rw [hsign, signed_abs]
  have hnearest : IsNearestTo (signed negative |q|) negative rank := by
    rw [← hq]
    exact h.1
  exact ⟨hnearest.isBetweenMiddles (abs_nonneg q), hq⟩

end Binary64

namespace Scaled

theorem abs_toRat (scaled : Scaled) : |scaled.toRat| = scaled.coefficient * 10 ^ scaled.exponent := by
  apply Binary64.abs_signed
  positivity

-- The decimal with the given digits is a shortest one for a value: it rounds to the value, no decimal
-- that does so has fewer digits, and none that has as many is nearer to the value. Neither its first
-- digit nor its last is a zero.
structure IsShortest (decimal : Scaled) (ds : List Digit) (negative : Bool)
    (rank : Fin Binary64.overflowRank) : Prop where
  digits : ds = Decimal.digits decimal.coefficient
  rounds : Binary64.RoundsTo decimal.toRat (.finite negative rank)
  fewest : ∀ other : Scaled, Binary64.RoundsTo other.toRat (.finite negative rank) →
    ds.length ≤ (Decimal.digits other.coefficient).length
  nearest : ∀ other : Scaled, Binary64.RoundsTo other.toRat (.finite negative rank) →
    (Decimal.digits other.coefficient).length = ds.length →
      |decimal.toRat - Binary64.signed negative (Binary64.magnitude rank)| ≤
        |other.toRat - Binary64.signed negative (Binary64.magnitude rank)|
  first : ∃ digit rest, ds = digit :: rest ∧ digit ≠ 0
  last : ∃ front digit, ds = front ++ [digit] ∧ digit ≠ 0

end Scaled

namespace Binary64

theorem Denotes.value_ne_zero {decimal : Scientific} {rank zeros : Nat}
    (h : Denotes decimal rank zeros) : Decimal.value decimal.digits ≠ 0 :=
  ((Nat.pow_pos (by decide)).trans_le h.leading).ne'

-- The digits that the search finds are a shortest decimal, with either sign.
theorem isShortest_shortest (negative : Bool) {rank : Fin overflowRank} (hrank : rank.val ≠ 0) :
    Scaled.IsShortest ⟨negative, Decimal.value (shortest rank).digits,
      (shortest rank).exponent - ((shortest rank).digits.length - 1 : Nat)⟩
      (shortest rank).digits negative rank := by
  obtain ⟨zeros, hfewest⟩ := exists_isFewest hrank
  have hdenotes := hfewest.denotes
  have hnonzero := hdenotes.value_ne_zero
  have hround := round_denotes hdenotes negative
  have hvalue := hdenotes.value_mul
  generalize shortest rank = decimal at *
  have hdistance (q : ℚ) : |signed negative q - signed negative (magnitude rank)| =
      |q - magnitude rank| := abs_signed_sub negative q _
  refine ⟨?_, ?_, ?_, ?_, ?_, ?_⟩
  · exact (Decimal.digits_value_of_leading hdenotes.digits_ne_nil hdenotes.leading).symm
  · rw [← hround]
    exact Scaled.roundsTo_round _ fun _ => hnonzero
  · intro other hother
    have hmiddles := hother.of_finite.1
    rw [other.abs_toRat] at hmiddles
    exact hfewest.fewest _ _ hmiddles
  · intro other hother hlength
    obtain ⟨hmiddles, hsigned⟩ := hother.of_finite
    rw [hsigned, hdistance, other.abs_toRat]
    rw [other.abs_toRat] at hmiddles
    rw [Scaled.toRat, hdistance, hvalue]
    exact hfewest.nearest _ _ hmiddles hlength.le
  · obtain ⟨digit, rest, heq⟩ := List.exists_cons_of_ne_nil hdenotes.digits_ne_nil
    have hleading := hdenotes.leading
    rw [heq] at hleading
    exact ⟨digit, rest, heq, Decimal.leading_cons_iff.mp hleading⟩
  · obtain ⟨front, digit, heq⟩ := (List.eq_nil_or_concat' decimal.digits).resolve_left
      hdenotes.digits_ne_nil
    refine ⟨front, digit, heq, ?_⟩
    rintro rfl
    exact hfewest.last (heq ▸ List.getLast?_concat)

end Binary64

-- What is printed of a whole number below the limit is the number. Of any other finite value the
-- significant digits are printed that make a shortest decimal for it, and among those a nearest one.
theorem display_shortest (negative : Bool) (rank : Fin Binary64.overflowRank) :
    (∀ n : Int, Binary64.signed negative (Binary64.magnitude rank) = n → |n| < 10 ^ 21 →
      (Binary64.finite negative rank).display = toString n) ∧
    ((∀ n : Int, Binary64.signed negative (Binary64.magnitude rank) ≠ n) ∨
        10 ^ 21 ≤ |Binary64.signed negative (Binary64.magnitude rank)| →
      ∃ decimal, Scaled.ofText? (Binary64.finite negative rank).display = some decimal ∧
        decimal.IsShortest (Decimal.significant (Binary64.finite negative rank).display)
          negative rank) := by
  refine ⟨fun n hn hlimit => Binary64.display_whole_number hn hlimit, fun hrange => ?_⟩
  have hwhole : ¬ Binary64.IsWhole rank := by
    rw [Binary64.isWhole_iff negative]
    rintro ⟨⟨n, hn⟩, hlimit⟩
    rcases hrange with hfraction | hlarge
    · exact hfraction n hn
    · exact absurd hlimit (not_lt.mpr hlarge)
  have hrank := (Binary64.display_not_isWhole negative rank hwhole).1
  have hscaled := Binary64.scaled_display_shortest negative hwhole
  have hshortest := Binary64.isShortest_shortest negative hrank
  obtain ⟨zeros, hdenotes⟩ := Binary64.exists_denotes_shortest rank hrank
  refine ⟨_, hscaled, ?_⟩
  rw [Decimal.significant_of_scaled hscaled hdenotes.value_ne_zero, ← hshortest.digits]
  exact hshortest

example : (Binary64.finite true ⟨1, by decide⟩).display = "-5e-324" := by decide +kernel

end PostfixCalc
