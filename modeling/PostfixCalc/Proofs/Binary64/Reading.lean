import Mathlib.Data.List.TakeWhile
import PostfixCalc.Binary64.Reading
import PostfixCalc.Proofs.Numeral

namespace PostfixCalc

-- A decimal text taken apart: its sign, the number that all its digits make, and the power of ten
-- that the last of them counts.
structure Scaled where
  negative : Bool
  coefficient : Nat
  exponent : Int

namespace Scaled

def ofChars? (cs : List Char) : Option Scaled :=
  let (negative, body) := Binary64.splitSign cs
  let mantissa := body.takeWhile (!Binary64.isExponentMark ·)
  let whole := mantissa.takeWhile (· != '.')
  let fraction := (mantissa.dropWhile (· != '.')).drop 1
  match Decimal.ofChars? whole, Decimal.ofChars? fraction,
    Binary64.exponent? (body.dropWhile (!Binary64.isExponentMark ·)) with
  | some whole, some fraction, some exponent =>
    if whole ++ fraction = [] then none
    else some ⟨negative, Decimal.value (whole ++ fraction), exponent - fraction.length⟩
  | _, _, _ => none

def ofText? (text : String) : Option Scaled := ofChars? text.toList

def round (scaled : Scaled) : Binary64 :=
  Binary64.ofScaled scaled.negative scaled.coefficient scaled.exponent

end Scaled

namespace Binary64

-- To read a decimal is to take it apart and to round it.
theorem ofText?_eq (text : String) : ofText? text = (Scaled.ofText? text).map Scaled.round := by
  unfold ofText? Scaled.ofText? ofChars? Scaled.ofChars?
  obtain ⟨negative, body⟩ := splitSign text.toList
  simp only
  generalize Decimal.ofChars? _ = whole?
  generalize Decimal.ofChars? _ = fraction?
  generalize exponent? _ = exponent?
  cases whole? with
  | none => rfl
  | some whole =>
      cases fraction? with
      | none => rfl
      | some fraction =>
          cases exponent? with
          | none => rfl
          | some exponent =>
              simp only
              split <;> rfl

theorem ofScaled_neg (negative : Bool) (coefficient scale : Nat) :
    ofScaled negative coefficient (-(scale : Int)) = ofDecimal negative coefficient scale := by
  unfold ofScaled
  split
  · have hscale : scale = 0 := by omega
    subst hscale
    simp
  · simp

private theorem isExponentMark_digit (digit : Digit) :
    isExponentMark (Decimal.toChar digit) = false := by
  revert digit
  decide

private theorem no_exponentMark (numeral : Numeral) :
    ∀ c ∈ numeral.bodyChars, (!isExponentMark c) = true := by
  intro c hc
  have hmem : c ∈ numeral.toChars := by simp [numeral.toChars_eq, hc]
  rcases Numeral.mem_toChars hmem with rfl | rfl | ⟨digit, rfl⟩
  · decide
  · decide
  · rw [isExponentMark_digit digit]
    rfl

private theorem splitSign_toChars (numeral : Numeral) (tail : List Char) :
    splitSign (numeral.toChars ++ tail) = (numeral.negative, numeral.bodyChars ++ tail) := by
  rw [numeral.toChars_eq]
  cases numeral.negative with
  | true => rfl
  | false =>
      obtain ⟨digit, digits, hwhole⟩ := List.exists_cons_of_ne_nil numeral.whole_ne_nil
      have hbody : numeral.bodyChars = Decimal.toChar digit :: numeral.bodyChars.tail := by
        simp [Numeral.bodyChars, hwhole, Decimal.toChars]
      rw [hbody]
      simp [splitSign, Decimal.toChar_ne_minus digit, Decimal.toChar_ne_plus digit]

-- A numeral with perhaps an exponent part behind it.
theorem scaled_numeral_append (numeral : Numeral) {tail : List Char} {exponent : Int}
    (htail : ∀ c ∈ tail.head?, isExponentMark c = true) (hexponent : exponent? tail = some exponent) :
    Scaled.ofChars? (numeral.toChars ++ tail) =
      some ⟨numeral.negative, Decimal.value (numeral.whole ++ numeral.fraction),
        exponent - numeral.fraction.length⟩ := by
  have hmantissa : (numeral.bodyChars ++ tail).takeWhile (!isExponentMark ·) =
      numeral.bodyChars := by
    rw [List.takeWhile_append_of_pos (no_exponentMark numeral)]
    cases tail with
    | nil => simp
    | cons c tail => simp [htail c (by simp)]
  have hrest : (numeral.bodyChars ++ tail).dropWhile (!isExponentMark ·) = tail := by
    rw [List.dropWhile_append_of_pos (no_exponentMark numeral)]
    cases tail with
    | nil => rfl
    | cons c tail => simp [htail c (by simp)]
  have hfraction : (if numeral.fraction = [] then []
      else '.' :: Decimal.toChars numeral.fraction).drop 1 = Decimal.toChars numeral.fraction := by
    split <;> simp_all [Decimal.toChars]
  have hdigits : numeral.whole ++ numeral.fraction ≠ [] := by simp [numeral.whole_ne_nil]
  rw [Scaled.ofChars?, splitSign_toChars]
  simp only [hmantissa, hrest, numeral.takeWhile_bodyChars, numeral.dropWhile_bodyChars, hfraction,
    Decimal.ofChars?_toChars, hexponent, hdigits, ite_false]

theorem scaled_numeral (numeral : Numeral) : Scaled.ofText? numeral.text =
    some ⟨numeral.negative, Decimal.value (numeral.whole ++ numeral.fraction),
      -numeral.fraction.length⟩ := by
  have hnone : ∀ c ∈ ([] : List Char).head?, isExponentMark c = true := by simp
  have hscaled := scaled_numeral_append numeral hnone rfl
  rw [Scaled.ofText?, Numeral.toList_text]
  simpa using hscaled

-- Whatever the calculator takes for a number is a decimal elsewhere, and the same one.
theorem ofText?_text (numeral : Numeral) : ofText? numeral.text = some numeral.value := by
  rw [ofText?_eq, scaled_numeral, Option.map_some, Scaled.round, ofScaled_neg]
  rfl

end Binary64

end PostfixCalc
