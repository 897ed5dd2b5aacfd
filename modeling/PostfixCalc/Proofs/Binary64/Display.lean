import PostfixCalc.Proofs.Binary64.Text
import PostfixCalc.Proofs.Binary64.Thresholds
import PostfixCalc.Proofs.Binary64.Value
import PostfixCalc.Proofs.Machine.Run

namespace PostfixCalc

namespace Binary64

-- The values that are printed as numerals.
def IsPlain (value : Binary64) : Prop :=
  value.isZero = true ∨ ∃ q, value.toRat? = some q ∧ 1 / 10 ^ 4 ≤ |q| ∧ |q| < 10 ^ 21

def withoutZeroSign (value : Binary64) : Binary64 := if value.isZero then zero false else value

theorem isPlain_finite_iff (negative : Bool) (rank : Fin overflowRank) :
    IsPlain (.finite negative rank) ↔
      rank.val = 0 ∨ leastPlainRank ≤ rank.val ∧ quanta rank < wholeLimit * oneQuanta := by
  have hlow := le_magnitude_iff rank 1 (10 ^ 4) (by decide)
  have hhigh := magnitude_lt_iff rank wholeLimit
  rw [Nat.one_mul, ← leastPlainRank_le_iff] at hlow
  rw [← hlow, ← hhigh]
  have hlimit : (wholeLimit : ℚ) = 10 ^ 21 := by norm_num [wholeLimit]
  have hzero : isZero (.finite negative rank) = true ↔ rank.val = 0 := by simp [isZero]
  rw [IsPlain, hzero, hlimit]
  push_cast
  constructor
  · rintro (h | ⟨q, hq, hbounds⟩)
    · exact .inl h
    · rw [abs_toRat? negative rank hq] at hbounds
      exact .inr hbounds
  · rintro (h | hbounds)
    · exact .inl h
    · refine .inr ⟨_, rfl, ?_⟩
      rw [abs_toRat? negative rank rfl]
      exact hbounds

theorem oneQuanta_mul_quantumUnits : oneQuanta * quantumUnits = 10 ^ 1074 := by decide +kernel

-- Equal quotients are rounded alike.
theorem ofQuanta_congr {negative : Bool} {num den num' den' : Nat} (hden : 0 < den)
    (hden' : 0 < den') (h : num * den' = num' * den) :
    ofQuanta negative num den = ofQuanta negative num' den' := by
  unfold ofQuanta
  rw [nearestRank_congr hden hden' h]

-- The digits of a magnitude are read as the magnitude, wherever the point is among them.
theorem value_numeral {decimal : Scientific} {rank : Fin overflowRank} {zeros : Nat}
    (h : Denotes decimal rank zeros) (negative : Bool) :
    (decimal.numeral negative).value = .finite negative rank := by
  apply ofQuanta_eq
  have hpoint := decimal.value_around_point zeros 1074 h.digits_ne_nil h.exponent
  rw [← h.reads]
  apply nearestRank_congr (Nat.pow_pos (by decide)) quantumUnits_pos
  rw [Nat.mul_assoc, oneQuanta_mul_quantumUnits]
  exact hpoint

-- A whole number is read as itself.
theorem value_whole {rank : Fin overflowRank} {whole : Nat} (negative : Bool)
    (hwhole : quanta rank = whole * oneQuanta) :
    (Numeral.mk negative (Decimal.digits whole) [] (Decimal.digits_ne_nil whole)).value =
      .finite negative rank := by
  apply ofQuanta_eq
  have hitself := nearestRank_quanta rank 1 (by decide)
  rw [List.append_nil, Decimal.value_digits, ← hwhole]
  simpa using hitself

-- Whether the value is written as a whole number, without a point.
def IsWhole (rank : Nat) : Prop := quanta rank % oneQuanta = 0 ∧ quanta rank / oneQuanta < wholeLimit

instance (rank : Nat) : Decidable (IsWhole rank) := inferInstanceAs (Decidable (_ ∧ _))

theorem isWhole_zero : IsWhole 0 := by decide +kernel

theorem range_of_isWhole (rank : Nat) (hrank : rank ≠ 0) (hwhole : IsWhole rank) :
    leastPlainRank ≤ rank ∧ quanta rank < wholeLimit * oneQuanta := by
  obtain ⟨hmod, hlimit⟩ := hwhole
  have hpos : 0 < quanta rank := by
    have hmono := quanta_strictMono (Nat.pos_of_ne_zero hrank)
    rwa [quanta_zero] at hmono
  have hone : oneQuanta ≤ quanta rank := Nat.le_of_dvd hpos (Nat.dvd_of_mod_eq_zero hmod)
  refine ⟨(leastPlainRank_le_iff rank).mpr (hone.trans (Nat.le_mul_of_pos_right _ (by decide))), ?_⟩
  exact (Nat.div_lt_iff_lt_mul oneQuanta_pos).mp hlimit

theorem display_finite (negative : Bool) (rank : Fin overflowRank) :
    (Binary64.finite negative rank).display =
      if IsWhole rank then
        String.ofList (signText (negative && quanta rank / oneQuanta != 0) ++
          Decimal.natText (quanta rank / oneQuanta))
      else String.ofList (signText negative ++ magnitudeText rank) := rfl

theorem display_isWhole (negative : Bool) (rank : Fin overflowRank) (hwhole : IsWhole rank) :
    ∃ numeral : Numeral, (Binary64.finite negative rank).display = numeral.text ∧
      numeral.value = withoutZeroSign (.finite negative rank) := by
  have hquanta : quanta rank = quanta rank / oneQuanta * oneQuanta :=
    (Nat.div_mul_cancel (Nat.dvd_of_mod_eq_zero hwhole.1)).symm
  rw [display_finite, if_pos hwhole]
  generalize quanta rank / oneQuanta = whole at hquanta ⊢
  have hzero : whole = 0 ↔ rank.val = 0 := by
    constructor
    · rintro rfl
      rw [Nat.zero_mul] at hquanta
      exact quanta_strictMono.injective (hquanta.trans quanta_zero.symm)
    · intro h
      rw [h, quanta_zero] at hquanta
      exact (Nat.mul_eq_zero.mp hquanta.symm).resolve_right oneQuanta_pos.ne'
  refine ⟨⟨negative && whole != 0, Decimal.digits whole, [], Decimal.digits_ne_nil _⟩, ?_, ?_⟩
  · simp [Numeral.text, Numeral.toChars, signText, Decimal.natText]
  · rw [value_whole _ hquanta, withoutZeroSign]
    by_cases h : rank.val = 0
    · have hrank : rank = ⟨0, by decide⟩ := Fin.ext h
      simp [hzero.mpr h, isZero, zero, hrank]
    · have hne : whole ≠ 0 := fun hw => h (hzero.mp hw)
      simp [hne, isZero, h]

theorem display_not_isWhole (negative : Bool) (rank : Fin overflowRank) (hwhole : ¬ IsWhole rank) :
    rank.val ≠ 0 ∧ (Binary64.finite negative rank).display =
      String.ofList (signText negative ++ layout.write (shortest rank)) := by
  have hrank : rank.val ≠ 0 := by
    intro h
    rw [h] at hwhole
    exact hwhole isWhole_zero
  rw [display_finite, if_neg hwhole, magnitudeText, if_neg hrank]
  exact ⟨hrank, rfl⟩

-- Every value in range is printed as a numeral, which is read as that value.
theorem exists_numeral_of_isPlain (value : Binary64) (hplain : value.IsPlain) :
    ∃ numeral : Numeral, value.display = numeral.text ∧
      numeral.value = value.withoutZeroSign := by
  cases value with
  | nan => simp [IsPlain, isZero, toRat?] at hplain
  | infinity negative => simp [IsPlain, isZero, toRat?] at hplain
  | finite negative rank =>
      by_cases hwhole : IsWhole rank
      · exact display_isWhole negative rank hwhole
      · obtain ⟨hrank, hdisplay⟩ := display_not_isWhole negative rank hwhole
        obtain ⟨hlow, hhigh⟩ := ((isPlain_finite_iff negative rank).mp hplain).resolve_left hrank
        have hfraction : ¬ oneQuanta ∣ quanta rank := by
          intro hdvd
          exact hwhole ⟨Nat.mod_eq_zero_of_dvd hdvd, Nat.div_lt_of_lt_mul (by rwa [Nat.mul_comm])⟩
        have hform : layout.write (shortest rank) = Layout.positional (shortest rank) :=
          if_pos ⟨(neg_four_le_exponent_iff rank hrank).mpr hlow,
            exponent_lt_sixteen rank hrank hfraction⟩
        obtain ⟨zeros, hdenotes⟩ := exists_denotes_shortest rank hrank
        refine ⟨(shortest rank).numeral negative, ?_, ?_⟩
        · rw [hdisplay, hform, Numeral.text,
            (shortest rank).toChars_numeral negative hdenotes.digits_ne_nil]
        · rw [value_numeral hdenotes]
          simp [withoutZeroSign, isZero, hrank]

-- Out of that range a finite value is printed in exponent form.
theorem display_of_not_isPlain (negative : Bool) (rank : Fin overflowRank)
    (hplain : ¬ IsPlain (.finite negative rank)) :
    rank.val ≠ 0 ∧ (Binary64.finite negative rank).display =
      String.ofList (signText negative ++ layout.exponential (shortest rank)) := by
  rw [isPlain_finite_iff] at hplain
  have hrank : rank.val ≠ 0 := fun h => hplain (.inl h)
  have hrange : ¬ (leastPlainRank ≤ rank.val ∧ quanta rank < wholeLimit * oneQuanta) :=
    fun h => hplain (.inr h)
  have hwhole : ¬ IsWhole rank := fun h => hrange (range_of_isWhole rank hrank h)
  obtain ⟨-, hdisplay⟩ := display_not_isWhole negative rank hwhole
  have hform : layout.write (shortest rank) = layout.exponential (shortest rank) := by
    apply if_neg
    rintro ⟨hlow, hhigh⟩
    apply hrange
    refine ⟨(neg_four_le_exponent_iff rank hrank).mp hlow, ?_⟩
    by_contra hlarge
    have hexponent := sixteen_le_exponent rank hrank (Nat.le_of_not_lt hlarge)
    exact absurd hhigh (not_lt.mpr hexponent)
  rw [hdisplay, hform]
  exact ⟨hrank, rfl⟩

private theorem isBlank_mark {c : Char} (hc : c ∈ ['.', 'e', '-', '+']) :
    Text.isBlank c = false := by
  simp only [List.mem_cons, List.not_mem_nil, or_false] at hc
  rcases hc with rfl | rfl | rfl | rfl <;> rfl

private theorem isWord_sign_exponential (negative : Bool) (decimal : Scientific) :
    Text.IsWord (signText negative ++ layout.exponential decimal) := by
  refine ⟨by simp [List.append_eq_nil_iff, Layout.exponential], ?_⟩
  intro c hc
  rcases List.mem_append.mp hc with hc | hc
  · have hminus : c = '-' := by cases negative <;> simp_all [signText]
    rw [hminus]
    decide
  · rcases Layout.mem_exponential hc with hmark | ⟨digit, rfl⟩
    · exact isBlank_mark hmark
    · exact Token.isBlank_digit digit

-- Every other value is printed as a word that is no token.
theorem display_unknown_of_not_isPlain (value : Binary64) (hplain : ¬ value.IsPlain) :
    Text.IsWord value.display.toList ∧ Token.read value.display = .unknown value.display := by
  cases value with
  | nan => exact ⟨by decide, by decide⟩
  | infinity negative => cases negative <;> exact ⟨by decide, by decide⟩
  | finite negative rank =>
      obtain ⟨-, hdisplay⟩ := display_of_not_isPlain negative rank hplain
      rw [hdisplay]
      refine ⟨?_, ?_⟩
      · rw [String.toList_ofList]
        exact isWord_sign_exponential negative (shortest rank)
      · apply Token.read_eq_unknown (c := 'e') _ Token.e_not_mem_text
        rw [String.toList_ofList]
        exact List.mem_append_right _ (Layout.e_mem_exponential layout (shortest rank))

theorem isWord_display (value : Binary64) : Text.IsWord value.display.toList := by
  by_cases hplain : value.IsPlain
  · obtain ⟨numeral, hdisplay, -⟩ := value.exists_numeral_of_isPlain hplain
    rw [hdisplay]
    exact Token.isWord_text (.number numeral) trivial
  · exact (value.display_unknown_of_not_isPlain hplain).1

end Binary64

namespace Machine

variable [Power]

-- A line of a single word gives back what its one token pushes, or fails as the token does.
theorem result_numeral (machine : Machine) (numeral : Numeral) :
    (machine.evaluate numeral.text).result = .ok (some numeral.value) := by
  have hword := Text.words_word _ (Token.isWord_text (.number numeral) trivial)
  have htokens : tokens numeral.text = [.number numeral] := by
    change tokens (Token.number numeral).text = _
    rw [tokens, hword, List.map_singleton, Token.read_text (.number numeral) trivial]
  have hrun : machine.reset.run (tokens numeral.text) =
      machine.reset.push (.number numeral.value) := by
    rw [htokens, run_singleton]
    rfl
  rw [result_of_done (by rw [hrun]; rfl), hrun]
  rfl

theorem result_unknown (machine : Machine) (text : String) (hword : Text.IsWord text.toList)
    (hunknown : Token.read text = .unknown text) :
    (machine.evaluate text).result = .error (.unknownToken text) := by
  apply result_of_failure
  rw [tokens, Text.words_word text hword, List.map_singleton, hunknown, run_singleton]
  rfl

end Machine

-- What is printed can be typed in again, and gives the same value, in exactly this range.
theorem evaluate_display [Power] (machine : Machine) (value : Binary64) :
    Text.words value.display = [value.display] ∧
    ((Token.read value.display).kind = .number ↔ value.IsPlain) ∧
    (value.IsPlain →
      (machine.evaluate value.display).result = .ok (some value.withoutZeroSign)) ∧
    (¬ value.IsPlain → (Token.read value.display).kind = .unknown ∧
      (machine.evaluate value.display).result = .error (.unknownToken value.display)) := by
  by_cases hplain : value.IsPlain
  · obtain ⟨numeral, hdisplay, hvalue⟩ := value.exists_numeral_of_isPlain hplain
    have hword : Text.IsWord value.display.toList := by
      rw [hdisplay]
      exact Token.isWord_text (.number numeral) trivial
    have hkind : (Token.read value.display).kind = .number := by
      rw [hdisplay, Token.read_numeral]
      rfl
    refine ⟨Text.words_word _ hword, ⟨fun _ => hplain, fun _ => hkind⟩, fun _ => ?_,
      fun h => absurd hplain h⟩
    rw [hdisplay, machine.result_numeral, hvalue]
  · obtain ⟨hword, hunknown⟩ := value.display_unknown_of_not_isPlain hplain
    have hkind : (Token.read value.display).kind = .unknown := by
      rw [hunknown]
      rfl
    refine ⟨Text.words_word _ hword, ?_, fun h => absurd h hplain, fun _ => ⟨hkind, ?_⟩⟩
    · rw [hkind]
      exact ⟨fun h => absurd h (by decide), fun h => absurd h hplain⟩
    · exact machine.result_unknown _ hword hunknown

end PostfixCalc
