import Mathlib.Data.List.TakeWhile
import Mathlib.Tactic.Ring
import PostfixCalc.Decimal

namespace PostfixCalc.Decimal

@[simp] theorem zeroDigit_eq : zeroDigit = 0 := rfl

@[simp] theorem ofChar?_toChar (digit : Digit) : ofChar? (toChar digit) = some digit := by
  revert digit
  decide

theorem toChar_of_ofChar? {c : Char} {digit : Digit} (h : ofChar? c = some digit) :
    toChar digit = c := by
  unfold ofChar? at h
  split at h
  · rename_i hrange
    obtain rfl := Option.some.inj h
    have hlow : '0'.toNat ≤ c.toNat := hrange.1
    rw [toChar, Nat.add_sub_cancel' hlow, Char.ofNat_toNat]
  · exact absurd h (by simp)

@[simp] theorem ofChars?_toChars (digits : List Digit) : ofChars? (toChars digits) = some digits := by
  induction digits with
  | nil => rfl
  | cons digit digits ih =>
      change ofChars? (toChar digit :: toChars digits) = some (digit :: digits)
      rw [ofChars?, ofChar?_toChar, ih]

theorem ofChars?_eq_some_iff {cs : List Char} {digits : List Digit} :
    ofChars? cs = some digits ↔ cs = toChars digits := by
  constructor
  · intro h
    induction cs generalizing digits with
    | nil =>
        obtain rfl := Option.some.inj h
        rfl
    | cons c cs ih =>
        rw [ofChars?] at h
        split at h
        · rename_i digit rest hdigit hrest
          obtain rfl := Option.some.inj h
          rw [ih hrest, ← toChar_of_ofChar? hdigit]
          rfl
        · exact absurd h (by simp)
  · rintro rfl
    exact ofChars?_toChars digits

theorem toChar_ne_point (digit : Digit) : toChar digit ≠ '.' := by
  revert digit
  decide

theorem toChar_ne_minus (digit : Digit) : toChar digit ≠ '-' := by
  revert digit
  decide

theorem toChar_ne_plus (digit : Digit) : toChar digit ≠ '+' := by
  revert digit
  decide

theorem exists_of_mem_toChars {digits : List Digit} {c : Char} (hc : c ∈ toChars digits) :
    ∃ digit, c = toChar digit := by
  obtain ⟨digit, _, rfl⟩ := List.mem_map.mp hc
  exact ⟨digit, rfl⟩

theorem toChars_eq_nil_iff {digits : List Digit} : toChars digits = [] ↔ digits = [] :=
  List.map_eq_nil_iff

private theorem foldl_value (digits : List Digit) (total : Nat) :
    digits.foldl (fun total digit => 10 * total + digit.val) total =
      total * 10 ^ digits.length + value digits := by
  induction digits generalizing total with
  | nil => simp [value]
  | cons digit digits ih =>
      have hvalue : value (digit :: digits) = digit.val * 10 ^ digits.length + value digits := by
        simpa [value] using ih digit.val
      rw [List.foldl_cons, ih, hvalue, List.length_cons]
      ring

theorem value_append (first second : List Digit) :
    value (first ++ second) = value first * 10 ^ second.length + value second := by
  rw [value, List.foldl_append, foldl_value second]
  rfl

@[simp] theorem value_nil : value [] = 0 := rfl

theorem value_cons (digit : Digit) (digits : List Digit) :
    value (digit :: digits) = digit.val * 10 ^ digits.length + value digits := by
  simpa [value] using value_append [digit] digits

@[simp] theorem value_zeros (count : Nat) : value (List.replicate count (0 : Digit)) = 0 := by
  induction count with
  | zero => rfl
  | succ count ih => rw [List.replicate_succ, value_cons, ih]; simp

theorem value_lt (digits : List Digit) : value digits < 10 ^ digits.length := by
  induction digits with
  | nil => simp
  | cons digit digits ih =>
      have hdigit := Nat.mul_le_mul_right (10 ^ digits.length) (Nat.lt_succ_iff.mp digit.isLt)
      rw [value_cons, List.length_cons, pow_succ]
      omega

theorem digits_ne_nil (n : Nat) : digits n ≠ [] := by
  rw [digits]
  split <;> simp

theorem length_digits_pos (n : Nat) : 0 < (digits n).length := List.length_pos_iff.mpr (digits_ne_nil n)

@[simp] theorem value_digits (n : Nat) : value (digits n) = n := by
  induction n using Nat.strong_induction_on with
  | h n ih =>
    rw [digits]
    split
    · rename_i hsmall
      simp [value, Nat.mod_eq_of_lt hsmall]
    · rename_i hlarge
      rw [value_append, ih (n / 10) (by omega)]
      simp [value]
      omega

theorem digitCount_eq_length (n : Nat) : digitCount n = (digits n).length := by
  induction n using Nat.strong_induction_on with
  | h n ih =>
    rw [digitCount, digits]
    split
    · rfl
    · rw [ih (n / 10) (by omega), List.length_append]
      rfl

theorem lt_pow_length_digits (n : Nat) : n < 10 ^ (digits n).length := by
  simpa using value_lt (digits n)

-- The first digit of a number above zero is not zero.
theorem pow_length_digits_le (n : Nat) (hn : n ≠ 0) : 10 ^ ((digits n).length - 1) ≤ n := by
  induction n using Nat.strong_induction_on with
  | h n ih =>
    rw [digits]
    split
    · simp
      omega
    · rename_i hlarge
      have hrest := ih (n / 10) (by omega) (by omega)
      have hlength := length_digits_pos (n / 10)
      have hpower : 10 ^ (digits (n / 10)).length = 10 ^ ((digits (n / 10)).length - 1) * 10 := by
        rw [← pow_succ, Nat.sub_add_cancel hlength]
      simp only [List.length_append, List.length_singleton, Nat.add_sub_cancel]
      omega

theorem digitCount_eq (n place : Nat) (hlow : 10 ^ place ≤ n) (hhigh : n < 10 ^ (place + 1)) :
    digitCount n = place + 1 := by
  have hne : n ≠ 0 := by
    have := Nat.pow_pos (show 0 < 10 by decide) (n := place)
    omega
  have hfirst := (pow_length_digits_le n hne).trans_lt hhigh
  have hlast := hlow.trans_lt (lt_pow_length_digits n)
  rw [Nat.pow_lt_pow_iff_right (by decide)] at hfirst hlast
  rw [digitCount_eq_length]
  omega

theorem digitChar_val (digit : Digit) : Nat.digitChar digit.val = toChar digit := by
  revert digit
  decide

theorem natText_eq_toDigits (n : Nat) : natText n = Nat.toDigits 10 n := by
  induction n using Nat.strong_induction_on with
  | h n ih =>
    have hlast : Nat.digitChar (n % 10) = toChar (Fin.ofNat 10 n) := digitChar_val (Fin.ofNat 10 n)
    rw [natText, digits, Nat.toDigits_eq_if (by decide)]
    split
    · rename_i hsmall
      rw [Nat.mod_eq_of_lt hsmall] at hlast
      rw [hlast]
      rfl
    · rw [← ih (n / 10) (by omega), hlast]
      exact List.map_append

-- Whole numbers are written in the usual way.
theorem ofList_intText (n : Int) : String.ofList (intText n) = toString n := by
  rw [← String.toList_inj, String.toList_ofList, Int.toString_eq_repr, Int.repr_eq_if, intText,
    natText_eq_toDigits]
  by_cases hn : n < 0
  · have habs : (-n).toNat = n.natAbs := by omega
    rw [if_pos hn, if_neg (by omega), habs, Nat.repr_eq_ofList_toDigits, String.toList_append,
      String.toList_ofList, String.toList_ofList]
    rfl
  · have habs : n.toNat = n.natAbs := by omega
    rw [if_neg hn, if_pos (by omega), habs, Nat.repr_eq_ofList_toDigits, String.toList_ofList]

theorem exists_stripZeros (digits : List Digit) :
    ∃ count, digits = stripZeros digits ++ List.replicate count 0 := by
  refine ⟨(digits.reverse.takeWhile (·.val == 0)).length, ?_⟩
  have hzeros : digits.reverse.takeWhile (·.val == 0) =
      List.replicate (digits.reverse.takeWhile (·.val == 0)).length 0 := by
    apply List.eq_replicate_of_mem
    intro digit hd
    have hzero := List.mem_takeWhile_imp hd
    exact Fin.ext (by simpa using hzero)
  have hsplit := congrArg List.reverse
    (List.takeWhile_append_dropWhile (p := (·.val == 0)) (l := digits.reverse))
  rw [List.reverse_append, List.reverse_reverse, hzeros, List.reverse_replicate] at hsplit
  simpa [stripZeros] using hsplit.symm

end PostfixCalc.Decimal
