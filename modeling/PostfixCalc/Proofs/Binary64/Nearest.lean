import Mathlib.Tactic.FieldSimp
import Mathlib.Tactic.NormNum
import PostfixCalc.Proofs.Binary64.Value

namespace PostfixCalc.Binary64

def signed (negative : Bool) (magnitude : ℚ) : ℚ := if negative then -magnitude else magnitude

theorem toRat?_finite (negative : Bool) (rank : Fin overflowRank) :
    toRat? (.finite negative rank) = some (signed negative (magnitude rank)) := rfl

theorem abs_signed (negative : Bool) {x : ℚ} (hx : 0 ≤ x) : |signed negative x| = x := by
  cases negative <;> simp [signed, abs_of_nonneg hx]

theorem abs_signed_sub (negative : Bool) (x y : ℚ) :
    |signed negative x - signed negative y| = |x - y| := by
  cases negative with
  | false => rfl
  | true =>
      have hneg : signed true x - signed true y = -(x - y) := by
        simp only [signed, ite_true]
        ring
      rw [hneg, abs_neg]

theorem abs_signed_sub_not (negative : Bool) {x y : ℚ} (hx : 0 ≤ x) (hy : 0 ≤ y) :
    |signed negative x - signed (!negative) y| = x + y := by
  have hsum : 0 ≤ x + y := add_nonneg hx hy
  cases negative with
  | false => simp [signed, abs_of_nonneg hsum]
  | true =>
      have hneg : signed true x - signed (!true) y = -(x + y) := by
        simp only [signed, Bool.not_true, Bool.false_eq_true, ite_true, ite_false]
        ring
      rw [hneg, abs_neg, abs_of_nonneg hsum]

-- The middle between the largest finite magnitude and 2^1024.
def overflowBound : ℚ := 2 ^ 1024 - 2 ^ 970

-- A finite value is the nearest to a number if no other is nearer. It may share its distance with
-- another value only if its significand is even.
structure IsNearestTo (q : ℚ) (negative : Bool) (rank : Fin overflowRank) : Prop where
  inRange : |q| < overflowBound
  nearest : ∀ (other : Bool) (place : Fin overflowRank),
    |q - signed negative (magnitude rank)| ≤ |q - signed other (magnitude place)|
  even : ∀ (other : Bool) (place : Fin overflowRank),
    |q - signed negative (magnitude rank)| = |q - signed other (magnitude place)| →
      signed other (magnitude place) ≠ signed negative (magnitude rank) →
        significand rank % 2 = 0

-- Rounding to the nearest value, ties to the even significand. The sign of a zero is left open.
def IsRounding (q : ℚ) : Binary64 → Prop
  | .nan => False
  | .infinity negative => overflowBound ≤ |q| ∧ negative = decide (q < 0)
  | .finite negative rank => IsNearestTo q negative rank

-- As above, and a zero has the sign of the number that was rounded.
def RoundsTo (q : ℚ) (value : Binary64) : Prop :=
  IsRounding q value ∧ value.isNegative = decide (q < 0)

theorem magnitude_strictMono : StrictMono magnitude := by
  intro first second h
  have hquanta : (quanta first : ℚ) < quanta second := Nat.cast_lt.mpr (quanta_strictMono h)
  exact div_lt_div_of_pos_right hquanta (Nat.cast_pos.mpr oneQuanta_pos)

theorem magnitude_zero : magnitude 0 = 0 := by
  rw [magnitude, quanta_zero, Nat.cast_zero, zero_div]

theorem magnitude_eq_zero_iff (rank : Nat) : magnitude rank = 0 ↔ rank = 0 := by
  rw [← magnitude_zero]
  exact magnitude_strictMono.injective.eq_iff

theorem significand_mod_two (rank : Nat) : significand rank % 2 = rank % 2 := by
  unfold significand spacingLog
  simp only [stretch_eq]
  omega

-- The number that num / den quanta are.
def ofQuotient (num den : Nat) : ℚ := (num : ℚ) / den / oneQuanta

theorem ofQuotient_nonneg (num den : Nat) : 0 ≤ ofQuotient num den := by
  unfold ofQuotient
  positivity

theorem ofQuotient_eq_zero_iff {num den : Nat} (hden : 0 < den) :
    ofQuotient num den = 0 ↔ num = 0 := by
  have hone := cast_oneQuanta_ne_zero
  have hden' : (den : ℚ) ≠ 0 := Nat.cast_ne_zero.mpr hden.ne'
  rw [ofQuotient, div_eq_zero_iff, or_iff_left hone, div_eq_zero_iff, or_iff_left hden',
    Nat.cast_eq_zero]

-- On a common scale, twice a quotient and twice a middle are whole numbers.
private theorem exists_scale (num den rank : Nat) (hden : 0 < den) : ∃ scale : ℚ, 0 < scale ∧
    2 * ofQuotient num den * scale = (2 * num : Nat) ∧
    (magnitude rank + magnitude (rank + 1)) * scale = (midpoint rank * den : Nat) := by
  have hone := cast_oneQuanta_ne_zero
  have hden' : (den : ℚ) ≠ 0 := Nat.cast_ne_zero.mpr hden.ne'
  refine ⟨den * oneQuanta, ?_, ?_, ?_⟩
  · exact mul_pos (Nat.cast_pos.mpr hden) (Nat.cast_pos.mpr oneQuanta_pos)
  · rw [ofQuotient]
    field_simp
    push_cast
    rfl
  · rw [magnitude, magnitude, midpoint]
    field_simp
    push_cast
    ring

variable {num den rank : Nat}

theorem two_mul_lt_iff (hden : 0 < den) :
    2 * ofQuotient num den < magnitude rank + magnitude (rank + 1) ↔
      2 * num < midpoint rank * den := by
  obtain ⟨scale, hscale, hnum, hmiddle⟩ := exists_scale num den rank hden
  rw [← mul_lt_mul_iff_left₀ hscale, hnum, hmiddle, Nat.cast_lt]

theorem lt_two_mul_iff (hden : 0 < den) :
    magnitude rank + magnitude (rank + 1) < 2 * ofQuotient num den ↔
      midpoint rank * den < 2 * num := by
  obtain ⟨scale, hscale, hnum, hmiddle⟩ := exists_scale num den rank hden
  rw [← mul_lt_mul_iff_left₀ hscale, hnum, hmiddle, Nat.cast_lt]

theorem two_mul_eq_iff (hden : 0 < den) :
    2 * ofQuotient num den = magnitude rank + magnitude (rank + 1) ↔
      2 * num = midpoint rank * den := by
  obtain ⟨scale, hscale, hnum, hmiddle⟩ := exists_scale num den rank hden
  rw [← mul_left_inj' hscale.ne', hnum, hmiddle, Nat.cast_inj]

-- The middles on either side of a magnitude bound the numbers that it is nearest to. On such a
-- middle the rank is even.
structure IsBetweenMiddles (x : ℚ) (rank : Nat) : Prop where
  upper : 2 * x ≤ magnitude rank + magnitude (rank + 1)
  upper_even : 2 * x = magnitude rank + magnitude (rank + 1) → rank % 2 = 0
  lower : ∀ below, rank = below + 1 → magnitude below + magnitude rank ≤ 2 * x
  lower_even : ∀ below, rank = below + 1 → magnitude below + magnitude rank = 2 * x →
    rank % 2 = 0

theorem isNearest_iff (hden : 0 < den) :
    IsNearest num den rank ↔ IsBetweenMiddles (ofQuotient num den) rank := by
  constructor
  · intro h
    refine ⟨?_, ?_, ?_, ?_⟩
    · rw [← not_lt, lt_two_mul_iff hden]
      have := h.upper
      omega
    · rw [two_mul_eq_iff hden]
      have := h.upper
      omega
    · rintro below rfl
      rw [← not_lt, two_mul_lt_iff hden]
      have := h.lower below rfl
      omega
    · rintro below rfl
      rw [eq_comm, two_mul_eq_iff hden]
      have := h.lower below rfl
      omega
  · intro h
    refine ⟨?_, ?_⟩
    · have hle := h.upper
      have heven := h.upper_even
      rw [← not_lt, lt_two_mul_iff hden] at hle
      rw [two_mul_eq_iff hden] at heven
      omega
    · rintro below rfl
      have hle := h.lower below rfl
      have heven := h.lower_even below rfl
      rw [← not_lt, two_mul_lt_iff hden] at hle
      rw [eq_comm, two_mul_eq_iff hden] at heven
      omega

-- The nearer of two numbers is told by the middle between them.
theorem abs_sub_le_iff_of_lt {x a b : ℚ} (h : a < b) : |x - a| ≤ |x - b| ↔ 2 * x ≤ a + b := by
  rw [← sq_le_sq]
  constructor <;> intro hle <;> nlinarith

theorem abs_sub_le_iff_of_gt {x a b : ℚ} (h : b < a) : |x - a| ≤ |x - b| ↔ b + a ≤ 2 * x := by
  rw [← sq_le_sq]
  constructor <;> intro hle <;> nlinarith

namespace IsBetweenMiddles

variable {x : ℚ} {rank other : Nat}

-- The nearest magnitude above is the next one, and the nearest below the one before.
theorem le_of_lt (h : IsBetweenMiddles x rank) (hother : rank < other) :
    2 * x ≤ magnitude rank + magnitude other := by
  have hnext := magnitude_strictMono.monotone (Nat.succ_le_of_lt hother)
  linarith [h.upper]

theorem le_of_gt (h : IsBetweenMiddles x rank) (hother : other < rank) :
    magnitude other + magnitude rank ≤ 2 * x := by
  obtain ⟨below, rfl⟩ : ∃ below, rank = below + 1 := ⟨rank - 1, by omega⟩
  have hbefore := magnitude_strictMono.monotone (Nat.le_of_lt_succ hother)
  linarith [h.lower below rfl]

theorem nearest (h : IsBetweenMiddles x rank) (other : Nat) :
    |x - magnitude rank| ≤ |x - magnitude other| := by
  rcases lt_trichotomy rank other with hlt | rfl | hgt
  · exact (abs_sub_le_iff_of_lt (magnitude_strictMono hlt)).mpr (h.le_of_lt hlt)
  · exact le_refl _
  · exact (abs_sub_le_iff_of_gt (magnitude_strictMono hgt)).mpr (h.le_of_gt hgt)

-- As near as another magnitude, the number is in the middle between two neighbours.
theorem even (h : IsBetweenMiddles x rank) (heq : |x - magnitude rank| = |x - magnitude other|)
    (hne : other ≠ rank) : rank % 2 = 0 := by
  have hmiddle : 2 * x = magnitude rank + magnitude other := by
    rcases abs_eq_abs.mp heq with hsame | hopposite
    · exact absurd (magnitude_strictMono.injective (by linarith)) hne
    · linarith
  rcases Nat.lt_or_gt_of_ne hne with hlt | hgt
  · obtain ⟨below, rfl⟩ : ∃ below, rank = below + 1 := ⟨rank - 1, by omega⟩
    have hbefore := magnitude_strictMono.monotone (Nat.le_of_lt_succ hlt)
    have hlower := h.lower below rfl
    exact h.lower_even below rfl (by linarith)
  · have hnext := magnitude_strictMono.monotone (Nat.succ_le_of_lt hgt)
    have hupper := h.upper
    exact h.upper_even (by linarith)

theorem le (h : IsBetweenMiddles x rank) (hother : IsBetweenMiddles x other) : rank ≤ other := by
  by_contra hgt
  obtain ⟨below, rfl⟩ : ∃ below, rank = below + 1 := ⟨rank - 1, by omega⟩
  have hlower := h.lower below rfl
  have hupper := hother.upper
  have hle := magnitude_strictMono.monotone (show other ≤ below by omega)
  have hnext := magnitude_strictMono.monotone (show other + 1 ≤ below + 1 by omega)
  -- the number would be in the middle between two even ranks that are neighbours
  have hrank := h.lower_even below rfl (by linarith)
  have hother := hother.upper_even (by linarith)
  have heq : magnitude other = magnitude below := by linarith
  have hsame := magnitude_strictMono.injective heq
  omega

end IsBetweenMiddles

-- The magnitudes around the bound of the range.
theorem magnitude_bound :
    magnitude (overflowRank - 1) + magnitude overflowRank = 2 * overflowBound := by
  have hquanta : quanta (overflowRank - 1) + quanta overflowRank + 2 * 2 ^ 970 * oneQuanta =
      2 * 2 ^ 1024 * oneQuanta := by decide +kernel
  have hone := cast_oneQuanta_ne_zero
  have hcast := congrArg (Nat.cast (R := ℚ)) hquanta
  simp only [Nat.cast_add, Nat.cast_mul, Nat.cast_pow, Nat.cast_ofNat] at hcast
  rw [overflowBound, magnitude, magnitude, ← add_div, div_eq_iff hone]
  generalize (2 : ℚ) ^ 1024 = above at hcast ⊢
  generalize (2 : ℚ) ^ 970 = half at hcast ⊢
  linarith

theorem lt_overflowBound_iff {x : ℚ} {rank : Nat} (h : IsBetweenMiddles x rank) :
    x < overflowBound ↔ rank < overflowRank := by
  have hbound := magnitude_bound
  constructor
  · intro hx
    by_contra hrank
    have hpos : 0 < overflowRank := by decide
    have hlast : overflowRank - 1 < rank := by omega
    have hlower := h.le_of_gt hlast
    have hmono := magnitude_strictMono.monotone (Nat.le_of_not_lt hrank)
    linarith
  · intro hrank
    have hupper := h.upper
    have hlast : magnitude rank ≤ magnitude (overflowRank - 1) :=
      magnitude_strictMono.monotone (by omega)
    have hnext : magnitude (rank + 1) ≤ magnitude overflowRank :=
      magnitude_strictMono.monotone (by omega)
    rcases lt_or_eq_of_le (show 2 * x ≤ 2 * overflowBound by linarith) with hlt | heq
    · linarith
    · -- only the last rank has the bound for its middle, and it is odd
      have hparity := h.upper_even (by linarith)
      have hsame : magnitude rank = magnitude (overflowRank - 1) := by linarith
      have hodd : (overflowRank - 1) % 2 = 1 := by decide +kernel
      rw [magnitude_strictMono.injective hsame] at hparity
      omega

theorem signed_abs (q : ℚ) : signed (decide (q < 0)) |q| = q := by
  by_cases hq : q < 0
  · simp [signed, hq, abs_of_neg hq]
  · simp [signed, hq, abs_of_nonneg (not_lt.mp hq)]

theorem signed_ne {negative : Bool} {x y : ℚ} (h : x ≠ y) : signed negative x ≠ signed negative y := by
  cases negative <;> simpa [signed] using h

-- Values of the other sign are out of the question: zero is nearer than they are.
theorem IsBetweenMiddles.isNearestTo {x : ℚ} (hx : 0 ≤ x) (negative : Bool)
    {rank : Fin overflowRank} (h : IsBetweenMiddles x rank) :
    IsNearestTo (signed negative x) negative rank where
  inRange := by
    rw [abs_signed negative hx]
    exact (lt_overflowBound_iff h).mpr rank.isLt
  nearest other place := by
    have hreverse := abs_abs_sub_abs_le_abs_sub (signed negative x) (signed other (magnitude place))
    rw [abs_signed negative hx, abs_signed other (magnitude_nonneg place)] at hreverse
    rw [abs_signed_sub]
    exact (h.nearest place).trans hreverse
  even other place heq hne := by
    have hreverse := abs_abs_sub_abs_le_abs_sub (signed negative x) (signed other (magnitude place))
    rw [abs_signed negative hx, abs_signed other (magnitude_nonneg place), ← heq,
      abs_signed_sub] at hreverse
    rw [significand_mod_two]
    by_cases hplace : place.val = rank.val
    · -- the same magnitude with the other sign
      rw [hplace] at heq hne
      have hopposite : other = !negative := Bool.eq_not.mpr fun hsame => hne (by rw [hsame])
      have hnonneg := magnitude_nonneg rank
      have hzero := h.nearest 0
      rw [hopposite, abs_signed_sub, abs_signed_sub_not negative hx hnonneg] at heq
      rw [magnitude_zero, sub_zero, abs_of_nonneg hx, heq] at hzero
      have hrank : magnitude rank = 0 := by linarith
      simp [hrank, signed] at hne
    · exact h.even (le_antisymm (h.nearest place) hreverse) hplace

theorem IsNearestTo.isBetweenMiddles {x : ℚ} (hx : 0 ≤ x) {negative : Bool}
    {rank : Fin overflowRank} (h : IsNearestTo (signed negative x) negative rank) :
    IsBetweenMiddles x rank := by
  have hnearest (place : Fin overflowRank) := h.nearest negative place
  have heven (place : Fin overflowRank) := h.even negative place
  simp only [abs_signed_sub, significand_mod_two] at hnearest heven
  -- equally near from both sides
  have htie {place : Nat} (hplace : place < overflowRank) (hne : place ≠ rank.val)
      (hmiddle : 2 * x = magnitude rank + magnitude place) : rank.val % 2 = 0 := by
    have hdistance : x - magnitude rank = -(x - magnitude place) := by linarith
    apply heven ⟨place, hplace⟩
    · rw [hdistance, abs_neg]
    · exact signed_ne (magnitude_strictMono.injective.ne hne)
  have hrange := h.inRange
  rw [abs_signed negative hx] at hrange
  have hbound := magnitude_bound
  have hrank := rank.isLt
  -- the magnitude behind the last one is out of range, and so is the middle before it
  have hlast (hnext : ¬rank.val + 1 < overflowRank) :
      2 * x < magnitude rank + magnitude (rank.val + 1) := by
    have hthis : rank.val = overflowRank - 1 := by omega
    have hthat : rank.val + 1 = overflowRank := by omega
    rw [hthat, hthis]
    linarith
  have hstep := magnitude_strictMono (Nat.lt_add_one rank.val)
  refine ⟨?_, ?_, ?_, ?_⟩
  · by_cases hnext : rank.val + 1 < overflowRank
    · exact (abs_sub_le_iff_of_lt hstep).mp (hnearest ⟨rank.val + 1, hnext⟩)
    · exact (hlast hnext).le
  · intro hmiddle
    by_cases hnext : rank.val + 1 < overflowRank
    · exact htie hnext (by omega) hmiddle
    · exact absurd hmiddle (hlast hnext).ne
  · intro below hbelow
    have hbefore := magnitude_strictMono (show below < rank.val by omega)
    exact (abs_sub_le_iff_of_gt hbefore).mp (hnearest ⟨below, by omega⟩)
  · intro below hbelow hmiddle
    exact htie (by omega) (by omega) (hmiddle.symm.trans (add_comm _ _))

-- What a number of either sign is rounded to with that sign: an infinity from the bound of the range
-- on, and below it the magnitude whose middles are on either side of the number.
theorem IsRounding.cases {x : ℚ} (hx : 0 ≤ x) {negative : Bool} {value : Binary64}
    (h : IsRounding (signed negative x) value) (hsign : value.isNegative = negative) :
    value = .infinity negative ∧ overflowBound ≤ x ∨
      ∃ rank : Fin overflowRank, value = .finite negative rank ∧ IsBetweenMiddles x rank := by
  cases value with
  | nan => exact h.elim
  | infinity other =>
      obtain rfl : other = negative := hsign
      have hbound := h.1
      rw [abs_signed other hx] at hbound
      exact .inl ⟨rfl, hbound⟩
  | finite other rank =>
      obtain rfl : other = negative := hsign
      exact .inr ⟨rank, rfl, IsNearestTo.isBetweenMiddles hx h⟩

-- There is one way to round a number with a given sign.
theorem IsRounding.unique {x : ℚ} (hx : 0 ≤ x) {negative : Bool} {first second : Binary64}
    (hfirst : IsRounding (signed negative x) first) (hfirst' : first.isNegative = negative)
    (hsecond : IsRounding (signed negative x) second) (hsecond' : second.isNegative = negative) :
    first = second := by
  rcases hfirst.cases hx hfirst' with ⟨rfl, hbound⟩ | ⟨rank, rfl, hrank⟩
  · rcases hsecond.cases hx hsecond' with ⟨rfl, -⟩ | ⟨place, rfl, hplace⟩
    · rfl
    · exact absurd hbound (not_le.mpr ((lt_overflowBound_iff hplace).mpr place.isLt))
  · rcases hsecond.cases hx hsecond' with ⟨rfl, hbound⟩ | ⟨place, rfl, hplace⟩
    · exact absurd hbound (not_le.mpr ((lt_overflowBound_iff hrank).mpr rank.isLt))
    · rw [Fin.ext (Nat.le_antisymm (hrank.le hplace) (hplace.le hrank))]

theorem RoundsTo.unique {q : ℚ} {first second : Binary64} (hfirst : RoundsTo q first)
    (hsecond : RoundsTo q second) : first = second := by
  have hfirst' : IsRounding (signed (decide (q < 0)) |q|) first := by
    rw [signed_abs]
    exact hfirst.1
  have hsecond' : IsRounding (signed (decide (q < 0)) |q|) second := by
    rw [signed_abs]
    exact hsecond.1
  exact hfirst'.unique (abs_nonneg q) hfirst.2 hsecond' hsecond.2

theorem isNegative_ofQuanta (negative : Bool) (num den : Nat) :
    (ofQuanta negative num den).isNegative = negative := by
  unfold ofQuanta
  split <;> rfl

-- Quotients of quanta are rounded correctly, over the whole range.
theorem isRounding_ofQuanta (negative : Bool) {num den : Nat} (hden : 0 < den) :
    IsRounding (signed negative (ofQuotient num den)) (ofQuanta negative num den) := by
  have hmiddles := (isNearest_iff hden).mp (isNearest_nearestRank num den hden)
  have hnonneg := ofQuotient_nonneg num den
  unfold ofQuanta
  split
  · rename_i hrank
    have hplace : IsBetweenMiddles (ofQuotient num den)
        (Fin.mk (nearestRank num den) hrank : Fin overflowRank) := hmiddles
    exact hplace.isNearestTo hnonneg negative
  · rename_i hrank
    have hbound : overflowBound ≤ ofQuotient num den := by
      rw [← not_lt, lt_overflowBound_iff hmiddles]
      exact hrank
    have hpos : 0 < overflowBound :=
      sub_pos.mpr (pow_lt_pow_right₀ (by norm_num) (by norm_num))
    refine ⟨?_, ?_⟩
    · rw [abs_signed negative hnonneg]
      exact hbound
    · cases negative <;> simp [signed, hnonneg, hpos.trans_le hbound]

theorem roundsTo_ofQuanta {negative : Bool} {num den : Nat} (hden : 0 < den)
    (hsign : negative = true → num ≠ 0) :
    RoundsTo (signed negative (ofQuotient num den)) (ofQuanta negative num den) := by
  refine ⟨isRounding_ofQuanta negative hden, ?_⟩
  have hnonneg := ofQuotient_nonneg num den
  rw [isNegative_ofQuanta]
  cases negative with
  | false => simpa [signed] using hnonneg
  | true =>
      have hne : ofQuotient num den ≠ 0 := mt (ofQuotient_eq_zero_iff hden).mp (hsign rfl)
      simpa [signed] using lt_of_le_of_ne hnonneg hne.symm

end PostfixCalc.Binary64
