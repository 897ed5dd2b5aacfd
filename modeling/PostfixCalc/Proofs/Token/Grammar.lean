import PostfixCalc.Token.Classes
import PostfixCalc.Proofs.Token

namespace PostfixCalc

namespace Decimal

theorem toChar_range (digit : Digit) : '0' ≤ toChar digit ∧ toChar digit ≤ '9' := by
  revert digit
  decide

theorem exists_toChar {c : Char} (hlow : '0' ≤ c) (hhigh : c ≤ '9') : ∃ digit, c = toChar digit := by
  exact ⟨_, (toChar_of_ofChar? (dif_pos ⟨hlow, hhigh⟩)).symm⟩

theorem exists_toChars {cs : List Char} (hcs : ∀ c ∈ cs, '0' ≤ c ∧ c ≤ '9') :
    ∃ digits, cs = toChars digits := by
  induction cs with
  | nil => exact ⟨[], rfl⟩
  | cons c cs ih =>
      obtain ⟨⟨hlow, hhigh⟩, hrest⟩ := List.forall_mem_cons.mp hcs
      obtain ⟨digit, rfl⟩ := exists_toChar hlow hhigh
      obtain ⟨digits, rfl⟩ := ih hrest
      exact ⟨digit :: digits, rfl⟩

theorem isRun_iff {cs : List Char} : IsRun cs ↔ ∃ digits, digits ≠ [] ∧ cs = toChars digits := by
  constructor
  · rintro ⟨hne, hcs⟩
    obtain ⟨digits, rfl⟩ := exists_toChars hcs
    exact ⟨digits, fun h => hne (toChars_eq_nil_iff.mpr h), rfl⟩
  · rintro ⟨digits, hne, rfl⟩
    refine ⟨fun h => hne (toChars_eq_nil_iff.mp h), fun c hc => ?_⟩
    obtain ⟨digit, rfl⟩ := exists_of_mem_toChars hc
    exact toChar_range digit

end Decimal

namespace Pattern

-- What a repeated range matches does not depend on the text around it.
theorem matches_repeated_range {low high : Char} {before piece after : List Char} :
    (repeated (range low high)).Matches before piece after ↔
      piece ≠ [] ∧ ∀ c ∈ piece, low ≤ c ∧ c ≤ high := by
  constructor
  · intro h
    induction h with
    | once before piece after h =>
        obtain ⟨c, rfl, hc⟩ := h
        exact ⟨by simp, by simpa using hc⟩
    | more before first second after hfirst _ ih =>
        obtain ⟨c, rfl, hc⟩ := hfirst
        exact ⟨by simp, List.forall_mem_cons.mpr ⟨hc, ih.2⟩⟩
  · rintro ⟨hne, hpiece⟩
    induction piece generalizing before with
    | nil => exact absurd rfl hne
    | cons c rest ih =>
        obtain ⟨hc, hrest⟩ := List.forall_mem_cons.mp hpiece
        cases rest with
        | nil => exact .once before [c] after ⟨c, rfl, hc⟩
        | cons next rest =>
            exact .more before [c] (next :: rest) after ⟨c, rfl, hc⟩ (ih (by simp) hrest)

end Pattern

namespace Numeral

theorem isWritten_toChars (numeral : Numeral) : IsWritten numeral.toChars := by
  have hsign : ∀ negative : Bool,
      (if negative then ['-'] else []) = [] ∨ (if negative then ['-'] else []) = ['-'] := by decide
  have hwhole := Decimal.isRun_iff.mpr ⟨numeral.whole, numeral.whole_ne_nil, rfl⟩
  rw [toChars]
  by_cases hfraction : numeral.fraction = []
  · rw [if_pos hfraction, List.append_nil]
    exact .whole _ _ (hsign _) hwhole
  · rw [if_neg hfraction]
    exact .point _ _ _ (hsign _) hwhole (Decimal.isRun_iff.mpr ⟨_, hfraction, rfl⟩)

theorem exists_toChars_of_isWritten {cs : List Char} (h : IsWritten cs) :
    ∃ numeral : Numeral, cs = numeral.toChars := by
  have hnegative {sign : List Char} (hsign : sign = [] ∨ sign = ['-']) :
      ∃ negative : Bool, sign = if negative then ['-'] else [] := by
    rcases hsign with rfl | rfl
    · exact ⟨false, rfl⟩
    · exact ⟨true, rfl⟩
  cases h with
  | whole sign digits hsign hdigits =>
      obtain ⟨negative, rfl⟩ := hnegative hsign
      obtain ⟨whole, hwhole, rfl⟩ := Decimal.isRun_iff.mp hdigits
      exact ⟨⟨negative, whole, [], hwhole⟩, by simp [toChars]⟩
  | point sign digits fraction hsign hdigits hfraction =>
      obtain ⟨negative, rfl⟩ := hnegative hsign
      obtain ⟨whole, hwhole, rfl⟩ := Decimal.isRun_iff.mp hdigits
      obtain ⟨fraction, hne, rfl⟩ := Decimal.isRun_iff.mp hfraction
      exact ⟨⟨negative, whole, fraction, hwhole⟩, by simp [toChars, hne]⟩

theorem isWritten_iff {cs : List Char} : IsWritten cs ↔ ∃ numeral : Numeral, cs = numeral.toChars := by
  constructor
  · exact exists_toChars_of_isWritten
  · rintro ⟨numeral, rfl⟩
    exact numeral.isWritten_toChars

-- The anchors take nothing away: a match of all of a text begins and ends with the text.
theorem matchesAll_pattern_iff {cs : List Char} : pattern.MatchesAll cs ↔ IsWritten cs := by
  have hdigits {before piece after : List Char} :
      digitsPattern.Matches before piece after ↔ Decimal.IsRun piece :=
    Pattern.matches_repeated_range
  simp only [Pattern.MatchesAll, pattern, Pattern.Matches, hdigits]
  constructor
  · rintro ⟨_, _, rfl, ⟨_, rfl⟩, sign, _, rfl, hsign, whole, _, rfl, hwhole, fraction, _, rfl,
      hfraction, rfl, _⟩
    rcases hfraction with rfl | ⟨_, digits, rfl, rfl, hrun⟩
    · simpa using IsWritten.whole sign whole hsign hwhole
    · simpa using IsWritten.point sign whole digits hsign hwhole hrun
  · intro h
    cases h with
    | whole sign digits hsign hrun =>
        exact ⟨[], _, rfl, by simp, sign, digits, rfl, hsign, digits, [], by simp, hrun, [], [], rfl,
          .inl rfl, by simp⟩
    | point sign digits fraction hsign hrun hfraction =>
        exact ⟨[], _, rfl, by simp, sign, digits ++ '.' :: fraction, by simp, hsign, digits,
          '.' :: fraction, rfl, hrun, '.' :: fraction, [], by simp,
          .inr ⟨['.'], fraction, rfl, rfl, hfraction⟩, by simp⟩

example : pattern.text = "^-?[0-9]+(?:\\.[0-9]+)?$" := by decide

end Numeral

namespace Letter

theorem toChar_range (letter : Letter) : 'A' ≤ letter.toChar ∧ letter.toChar ≤ 'Z' := by
  obtain ⟨index⟩ := letter
  revert index
  decide

theorem exists_toChar {c : Char} (hlow : 'A' ≤ c) (hhigh : c ≤ 'Z') :
    ∃ letter : Letter, c = letter.toChar := by
  have hrange : 'A'.toNat ≤ c.toNat ∧ c.toNat - 'A'.toNat < 26 := by
    have hle : c.toNat ≤ 'Z'.toNat := hhigh
    have hz : 'Z'.toNat = 90 := rfl
    have ha : 'A'.toNat = 65 := rfl
    exact ⟨hlow, by omega⟩
  exact ⟨_, (toChar_of_ofChar? (dif_pos hrange)).symm⟩

theorem matchesAll_pattern_iff {cs : List Char} :
    pattern.MatchesAll cs ↔ ∃ letter : Letter, cs = [letter.toChar] := by
  simp only [Pattern.MatchesAll, pattern, Pattern.Matches]
  constructor
  · rintro ⟨_, _, rfl, ⟨_, rfl⟩, _, _, rfl, ⟨c, rfl, hlow, hhigh⟩, rfl, _⟩
    obtain ⟨letter, rfl⟩ := exists_toChar hlow hhigh
    exact ⟨letter, rfl⟩
  · rintro ⟨letter, rfl⟩
    exact ⟨[], _, rfl, by simp, [letter.toChar], [], rfl, ⟨_, rfl, letter.toChar_range⟩, by simp⟩

end Letter

end PostfixCalc
