import Mathlib.Data.List.Basic
import Mathlib.Data.List.Induction
import PostfixCalc.Proofs.Decimal

namespace PostfixCalc.Decimal

theorem value_concat (ds : List Digit) (digit : Digit) :
    value (ds ++ [digit]) = 10 * value ds + digit.val := by
  simp [value]

-- Digits with no zero in front are those of the number that they make.
theorem digits_value_of_leading {ds : List Digit} (hne : ds ≠ [])
    (hleading : 10 ^ (ds.length - 1) ≤ value ds) : digits (value ds) = ds := by
  induction ds using List.reverseRecOn with
  | nil => exact absurd rfl hne
  | append_singleton rest digit ih =>
      rw [value_concat] at hleading ⊢
      have hlast : Fin.ofNat 10 (10 * value rest + digit.val) = digit := by
        apply Fin.ext
        change (10 * value rest + digit.val) % 10 = digit.val
        omega
      rw [digits, hlast]
      by_cases hrest : rest = []
      · simp [hrest]
      · obtain ⟨places, hplaces⟩ : ∃ places, rest.length = places + 1 :=
          Nat.exists_eq_succ_of_ne_zero (List.length_pos_iff.mpr hrest).ne'
        rw [List.length_append, List.length_singleton, Nat.add_sub_cancel, hplaces,
          Nat.pow_succ] at hleading
        have hfront : 10 ^ places ≤ value rest := by omega
        have hpositive : 0 < 10 ^ places := Nat.pow_pos (by decide)
        have hquotient : (10 * value rest + digit.val) / 10 = value rest := by omega
        rw [if_neg (by omega), hquotient, ih hrest (by rwa [hplaces])]

theorem leading_cons_iff {digit : Digit} {rest : List Digit} :
    10 ^ ((digit :: rest).length - 1) ≤ value (digit :: rest) ↔ digit ≠ 0 := by
  rw [value_cons, List.length_cons, Nat.add_sub_cancel]
  constructor
  · rintro hleading rfl
    have hlt := value_lt rest
    simp only [Fin.val_zero, Nat.zero_mul, Nat.zero_add] at hleading
    omega
  · intro hdigit
    have hpositive : 1 ≤ digit.val := Nat.pos_of_ne_zero (Fin.val_ne_iff.mpr hdigit)
    exact (Nat.le_mul_of_pos_left _ hpositive).trans (Nat.le_add_right _ _)

-- Zeros in front do not count.
theorem digits_value {ds : List Digit} (h : value ds ≠ 0) :
    digits (value ds) = ds.dropWhile (·.val == 0) := by
  induction ds with
  | nil => exact absurd rfl h
  | cons digit rest ih =>
      by_cases hdigit : digit = 0
      · subst hdigit
        have hvalue : value (0 :: rest) = value rest := by simp [value_cons]
        rw [hvalue] at h ⊢
        rw [ih h]
        rfl
      · have hnonzero : ¬ (digit.val == 0) = true := mt beq_iff_eq.mp (Fin.val_ne_iff.mpr hdigit)
        rw [digits_value_of_leading (List.cons_ne_nil _ _) (leading_cons_iff.mpr hdigit),
          List.dropWhile_cons, if_neg hnonzero]

theorem getLast?_stripZeros_ne (ds : List Digit) : (stripZeros ds).getLast? ≠ some 0 := by
  have hlast := List.head?_dropWhile_not (fun digit : Digit => digit.val == 0) ds.reverse
  rw [stripZeros, List.getLast?_reverse]
  intro hzero
  simp [hzero] at hlast

-- A number whose last digit is not zero is no multiple of ten.
theorem value_mod_ten_ne {ds : List Digit} (hne : ds ≠ []) (hlast : ds.getLast? ≠ some 0) :
    value ds % 10 ≠ 0 := by
  obtain ⟨front, digit, rfl⟩ := (List.eq_nil_or_concat' ds).resolve_left hne
  have hdigit : digit ≠ 0 := by
    rintro rfl
    exact hlast List.getLast?_concat
  have hpositive : digit.val ≠ 0 := Fin.val_ne_iff.mpr hdigit
  rw [value_concat]
  omega

end PostfixCalc.Decimal
