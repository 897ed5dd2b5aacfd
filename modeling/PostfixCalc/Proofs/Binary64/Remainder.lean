import Mathlib.Data.Rat.Floor
import PostfixCalc.Binary64.Remainder
import PostfixCalc.Proofs.Binary64.Range
import PostfixCalc.Proofs.Binary64.Signed
import PostfixCalc.Proofs.Quantity

namespace PostfixCalc

namespace Binary64

private theorem exists_quanta_scaled {a b : Nat} (spacing : Nat) (hshort : a % b < 2 * stretch) :
    ∃ rank, quanta rank = a * 2 ^ spacing % (b * 2 ^ spacing) := by
  obtain ⟨rank, -, hrank⟩ := exists_rank (a % b) spacing hshort
  exact ⟨rank, by rw [hrank, Nat.mul_mod_mul_right]⟩

-- The remainder of two magnitudes is a magnitude. Counted in the smaller of their units, it is below
-- the divisor and not above the dividend, and one of these has a short significand there.
theorem exists_quanta_mod (first second : Nat) (hsecond : second ≠ 0) :
    ∃ rank, rank < second ∧ quanta rank = quanta first % quanta second := by
  have hpos : 0 < quanta second := Nat.pos_of_ne_zero (mt (quanta_eq_zero_iff second).mp hsecond)
  obtain ⟨rank, hrank⟩ : ∃ rank, quanta rank = quanta first % quanta second := by
    obtain ⟨a, s, rfl, ha, has⟩ := exists_add_stretch first
    obtain ⟨b, t, rfl, hb, hbt⟩ := exists_add_stretch second
    rw [quanta_add b t hb.le hbt] at hpos
    rw [quanta_add a s ha.le has, quanta_add b t hb.le hbt]
    rcases le_total t s with hle | hle
    · obtain ⟨k, rfl⟩ := Nat.exists_eq_add_of_le hle
      rw [Nat.add_comm, pow_add, ← Nat.mul_assoc]
      exact exists_quanta_scaled t ((Nat.mod_lt _ (Nat.pos_of_mul_pos_right hpos)).trans hb)
    · obtain ⟨k, rfl⟩ := Nat.exists_eq_add_of_le hle
      rw [Nat.add_comm, pow_add, ← Nat.mul_assoc]
      exact exists_quanta_scaled s ((Nat.mod_le _ _).trans_lt ha)
  refine ⟨rank, ?_, hrank⟩
  rw [← quanta_strictMono.lt_iff_lt, hrank]
  exact Nat.mod_lt _ hpos

theorem tmod_signedQuanta (n₁ n₂ : Bool) (r₁ r₂ rank : Fin overflowRank)
    (hrank : quanta rank = quanta r₁ % quanta r₂) :
    (signedQuanta n₁ r₁).tmod (signedQuanta n₂ r₂) = signedQuanta n₁ rank := by
  have hcast : (quanta rank : Int) = (quanta r₁ : Int).tmod (quanta r₂) := by
    rw [hrank, Int.ofNat_tmod]
  cases n₁ <;> cases n₂ <;> simp [signedQuanta, hcast, Int.neg_tmod, Int.tmod_neg]

-- No rounding takes place in the truncated remainder.
theorem truncatedMod_finite (n₁ n₂ : Bool) (r₁ r₂ : Fin overflowRank) (hdivisor : r₂.val ≠ 0) :
    ∃ rank : Fin overflowRank, rank < r₂ ∧
      (signedQuanta n₁ r₁).tmod (signedQuanta n₂ r₂) = signedQuanta n₁ rank ∧
      truncatedMod (.finite n₁ r₁) (.finite n₂ r₂) = .finite n₁ rank := by
  obtain ⟨place, hlt, hplace⟩ := exists_quanta_mod r₁ r₂ hdivisor
  let rank : Fin overflowRank := ⟨place, hlt.trans r₂.isLt⟩
  have htmod := tmod_signedQuanta n₁ n₂ r₁ r₂ rank hplace
  refine ⟨rank, hlt, htmod, ?_⟩
  rw [truncatedMod, if_neg hdivisor, htmod, ofSignedQuanta_signedQuanta]

theorem modBySteps_of_nan {lhs rhs : Binary64} (h : lhs.truncatedMod rhs = .nan) :
    lhs.modBySteps rhs = .nan := by
  have hadd : nan.add rhs = nan := by cases rhs <;> rfl
  simp only [modBySteps, h, isZero, hadd, ite_self, Bool.false_eq_true, ite_false]

theorem modBySteps_of_finite {lhs rhs : Binary64} {negative : Bool} {rank : Fin overflowRank}
    (h : lhs.truncatedMod rhs = .finite negative rank) : lhs.modBySteps rhs =
      if rank.val = 0 then zero rhs.isNegative
      else if negative = rhs.isNegative then .finite negative rank
      else (finite negative rank).add rhs := by
  have hsign : (finite negative rank).isNegative = negative := rfl
  simp only [modBySteps, h, isZero, hsign, beq_iff_eq]

-- The two sign tests agree, since a divisor that is added to a smaller remainder never cancels it.
theorem mod_eq_modBySteps (lhs rhs : Binary64) : lhs.mod rhs = lhs.modBySteps rhs := by
  cases lhs with
  | nan => cases rhs <;> exact (modBySteps_of_nan rfl).symm
  | infinity n₁ => cases rhs <;> exact (modBySteps_of_nan rfl).symm
  | finite n₁ r₁ =>
      cases rhs with
      | nan => exact (modBySteps_of_nan rfl).symm
      | infinity n₂ =>
          have htruncated : truncatedMod (.finite n₁ r₁) (.infinity n₂) = .finite n₁ r₁ := rfl
          exact (modBySteps_of_finite htruncated).symm
      | finite n₂ r₂ =>
          by_cases hdivisor : r₂.val = 0
          · have htruncated : truncatedMod (.finite n₁ r₁) (.finite n₂ r₂) = .nan := if_pos hdivisor
            rw [modBySteps_of_nan htruncated, mod, if_pos hdivisor]
          · obtain ⟨rank, hlt, htmod, htruncated⟩ := truncatedMod_finite n₁ n₂ r₁ r₂ hdivisor
            rw [modBySteps_of_finite htruncated, mod, if_neg hdivisor]
            simp only [htmod, isNegative, add]
            by_cases hzero : rank.val = 0
            · rw [(signedQuanta_eq_zero_iff n₁ rank).mpr hzero]
              simp [hzero, ofSignedQuanta]
            · have hne := mt (signedQuanta_eq_zero_iff n₁ rank).mp hzero
              have hsum : signedQuanta n₁ rank + signedQuanta n₂ r₂ ≠ 0 := by
                have hquanta := quanta_strictMono hlt
                rw [← natAbs_signedQuanta n₁, ← natAbs_signedQuanta n₂] at hquanta
                omega
              rw [decide_signedQuanta_neg n₁ hzero, if_neg hzero, ofSignedQuanta_of_ne_zero (n₁ && n₂) n₂ hsum]
              by_cases hsame : n₁ = n₂
              · simp [hsame, ofSignedQuanta_signedQuanta]
              · simp [hsame, hne]

-- The remainder that is left when the quotient is rounded down.
theorem fmod_eq (a b : Int) : a.fmod b =
    if a.tmod b ≠ 0 ∧ decide (a.tmod b < 0) ≠ decide (b < 0) then a.tmod b + b else a.tmod b := by
  rw [Int.fmod_eq_tmod]
  by_cases hdvd : b ∣ a
  · simp [hdvd, Int.tmod_eq_zero_of_dvd hdvd]
  · have hne : a.tmod b ≠ 0 := mt Int.dvd_of_tmod_eq_zero hdvd
    have hsign : a.tmod b < 0 ↔ a < 0 := by
      rcases lt_or_ge a 0 with hneg | hnonneg
      · have hopposite := Int.tmod_nonneg b (Int.neg_nonneg_of_nonpos hneg.le)
        rw [Int.neg_tmod] at hopposite
        omega
      · have hsame := Int.tmod_nonneg b hnonneg
        omega
    have hopposite : decide (a.tmod b < 0) ≠ decide (b < 0) ↔ ¬ (a < 0 ↔ b < 0) := by
      rw [Ne, decide_eq_decide, hsign]
    rw [if_neg hdvd]
    simp only [hopposite]
    split_ifs <;> omega

theorem fmod_bounds (a : Int) {b : Int} (hb : b ≠ 0) :
    (a.fmod b).natAbs < b.natAbs ∧ (a.fmod b ≠ 0 → (a.fmod b < 0 ↔ b < 0)) := by
  rcases lt_or_gt_of_ne hb with hneg | hpos
  · have hlow := Int.fmod_nonneg_of_pos (-a) (Int.neg_pos_of_neg hneg)
    have hhigh := Int.fmod_lt_of_pos (-a) (Int.neg_pos_of_neg hneg)
    rw [Int.neg_fmod_neg] at hlow hhigh
    omega
  · have hlow := Int.fmod_nonneg_of_pos a hpos
    have hhigh := Int.fmod_lt_of_pos a hpos
    omega

theorem floor_div (a b : Int) : ⌊(a : ℚ) / b⌋ = a.fdiv b := by
  have hnonneg (a : Int) (b : Nat) : ⌊(a : ℚ) / (b : Int)⌋ = a.fdiv b := by
    rw [Int.cast_natCast, Rat.floor_intCast_div_natCast,
      Int.fdiv_eq_ediv_of_nonneg a (Int.natCast_nonneg b)]
  obtain ⟨n, rfl | rfl⟩ := Int.eq_nat_or_neg b
  · exact hnonneg a n
  · rw [← Int.neg_fdiv_neg, neg_neg, ← hnonneg, Int.cast_neg, Int.cast_neg, div_neg, neg_div]

-- Counted in quanta, the remainder below the rounded down quotient is whole.
theorem sub_mul_floor (a b : Int) :
    (a : ℚ) / oneQuanta - b / oneQuanta * ⌊(a : ℚ) / oneQuanta / (b / oneQuanta)⌋ =
      (a.fmod b : ℚ) / oneQuanta := by
  have hone := cast_oneQuanta_ne_zero
  rw [div_div_div_cancel_right₀ hone, floor_div, Int.fmod_def, Int.cast_sub, Int.cast_mul, sub_div,
    mul_div_right_comm]

theorem mod_finite (n₁ n₂ : Bool) (r₁ r₂ : Fin overflowRank) (hdivisor : r₂.val ≠ 0) :
    mod (.finite n₁ r₁) (.finite n₂ r₂) =
      ofSignedQuanta n₂ ((signedQuanta n₁ r₁).fmod (signedQuanta n₂ r₂)) := by
  rw [mod, if_neg hdivisor, fmod_eq]
  simp only [decide_signedQuanta_neg n₂ hdivisor]
  split <;> rfl

-- The rounded remainder is on the side of the divisor and not longer than it, so there is no overflow.
theorem exists_mod_eq (n₁ n₂ : Bool) (r₁ r₂ : Fin overflowRank) (hdivisor : r₂.val ≠ 0) :
    ∃ rank : Fin overflowRank, rank ≤ r₂ ∧
      mod (.finite n₁ r₁) (.finite n₂ r₂) = .finite n₂ rank := by
  have hne := mt (signedQuanta_eq_zero_iff n₂ r₂).mp hdivisor
  obtain ⟨hbound, hside⟩ := fmod_bounds (signedQuanta n₁ r₁) hne
  rw [mod_finite n₁ n₂ r₁ r₂ hdivisor, ofSignedQuanta_eq]
  generalize (signedQuanta n₁ r₁).fmod (signedQuanta n₂ r₂) = remainder at hbound hside
  have hsign : signOf n₂ remainder = n₂ := by
    apply signOf_eq
    intro hremainder
    rw [decide_eq_decide.mpr (hside hremainder), decide_signedQuanta_neg n₂ hdivisor]
  have hrank : nearestRank remainder.natAbs 1 ≤ r₂ := by
    rw [natAbs_signedQuanta] at hbound
    rw [← nearestRank_quanta r₂ 1 (by decide)]
    apply nearestRank_mono (by decide) (by decide)
    omega
  rw [hsign]
  exact ⟨⟨_, hrank.trans_lt r₂.isLt⟩, hrank, ofQuanta_eq n₂ rfl⟩

theorem isRounding_mod (n₁ n₂ : Bool) (r₁ r₂ : Fin overflowRank) (hdivisor : r₂.val ≠ 0) :
    let x := signed n₁ (magnitude r₁)
    let y := signed n₂ (magnitude r₂)
    IsRounding (x - y * ⌊x / y⌋) (mod (.finite n₁ r₁) (.finite n₂ r₂)) := by
  intro x y
  have hx : x = signedQuanta n₁ r₁ / oneQuanta := (cast_signedQuanta n₁ r₁).symm
  have hy : y = signedQuanta n₂ r₂ / oneQuanta := (cast_signedQuanta n₂ r₂).symm
  rw [hx, hy, sub_mul_floor, mod_finite n₁ n₂ r₁ r₂ hdivisor]
  exact isRounding_ofSignedQuanta _ _

-- What is left of a number when a whole multiple of another is taken off it, shorter than that one and
-- on the side of the first.
structure IsTruncatedRemainder (x y remainder : ℚ) : Prop where
  multiple : ∃ quotient : ℤ, remainder = x - y * quotient
  shorter : |remainder| < |y|
  side : 0 ≤ remainder * x

theorem isTruncatedRemainder_truncatedMod {n₁ n₂ : Bool} {r₁ r₂ : Fin overflowRank}
    (hdivisor : r₂.val ≠ 0) :
    ∃ remainder, (truncatedMod (.finite n₁ r₁) (.finite n₂ r₂)).toRat? = some remainder ∧
      IsTruncatedRemainder (signed n₁ (magnitude r₁)) (signed n₂ (magnitude r₂)) remainder := by
  obtain ⟨rank, hlt, htmod, htruncated⟩ := truncatedMod_finite n₁ n₂ r₁ r₂ hdivisor
  refine ⟨_, by rw [htruncated, toRat?_finite], ?_, ?_, ?_⟩
  · refine ⟨(signedQuanta n₁ r₁).tdiv (signedQuanta n₂ r₂), ?_⟩
    rw [← cast_signedQuanta, ← cast_signedQuanta, ← cast_signedQuanta, ← htmod, Int.tmod_def,
      Int.cast_sub, Int.cast_mul, sub_div, mul_div_right_comm]
  · rw [abs_signed _ (magnitude_nonneg _), abs_signed _ (magnitude_nonneg _)]
    exact magnitude_strictMono hlt
  · have hproduct := mul_nonneg (magnitude_nonneg rank) (magnitude_nonneg r₁)
    cases n₁ <;> simpa [signed] using hproduct

theorem exists_finite_of_toRat? {value : Binary64} {x : ℚ} (h : value.toRat? = some x) :
    ∃ negative rank, value = .finite negative rank ∧ x = signed negative (magnitude rank) := by
  cases value with
  | nan => cases h
  | infinity negative => cases h
  | finite negative rank => exact ⟨negative, rank, rfl, (Option.some.inj h).symm⟩

theorem signed_eq_zero_iff (negative : Bool) (rank : Nat) :
    signed negative (magnitude rank) = 0 ↔ rank = 0 := by
  rw [← abs_eq_zero, abs_signed negative (magnitude_nonneg rank), magnitude_eq_zero_iff]

theorem signed_pos_iff {negative : Bool} {rank : Nat} (hrank : rank ≠ 0) :
    0 < signed negative (magnitude rank) ↔ negative = false := by
  have hnonneg := magnitude_nonneg rank
  have hne : magnitude rank ≠ 0 := mt (magnitude_eq_zero_iff rank).mp hrank
  have hpos : 0 < magnitude rank := lt_of_le_of_ne hnonneg hne.symm
  cases negative <;> simp [signed, hpos, hnonneg]

end Binary64

-- The remainder of finite numbers is the number below the rounded down quotient, rounded once. It is
-- what the truncated remainder, which is exact, is turned into step by step. A zero has the sign of the
-- divisor, and all else is on the side of the divisor and at most as long.
theorem remainder_rounded_once [Power] (lhs rhs : Quantity) {left right : Binary64} {x y : ℚ}
    (hleft : lhs.toBinary64 = .ok left) (hright : rhs.toBinary64 = .ok right)
    (hx : left.toRat? = some x) (hy : right.toRat? = some y) (hdivisor : y ≠ 0) :
    ∃ result z, Operator.mod.call lhs rhs = .ok result ∧
      Operator.mod.compute? left right = some result ∧
      result = left.modBySteps right ∧
      (∃ remainder, (left.truncatedMod right).toRat? = some remainder ∧
        Binary64.IsTruncatedRemainder x y remainder) ∧
      result.toRat? = some z ∧
      Binary64.IsRounding (x - y * ⌊x / y⌋) result ∧
      (z = 0 → result = .zero right.isNegative) ∧
      (z ≠ 0 → (0 < z ↔ 0 < y)) ∧
      |z| ≤ |y| := by
  obtain ⟨n₁, r₁, rfl, rfl⟩ := Binary64.exists_finite_of_toRat? hx
  obtain ⟨n₂, r₂, rfl, rfl⟩ := Binary64.exists_finite_of_toRat? hy
  have hr₂ := mt (Binary64.signed_eq_zero_iff n₂ r₂).mpr hdivisor
  obtain ⟨rank, hle, hmod⟩ := Binary64.exists_mod_eq n₁ n₂ r₁ r₂ hr₂
  refine ⟨_, _, Operator.mod.call_eq hleft hright, rfl, Binary64.mod_eq_modBySteps _ _,
    Binary64.isTruncatedRemainder_truncatedMod hr₂, by rw [hmod, Binary64.toRat?_finite],
    Binary64.isRounding_mod n₁ n₂ r₁ r₂ hr₂, ?_, ?_, ?_⟩
  · intro hzero
    have hrank : rank = ⟨0, by decide⟩ := Fin.ext ((Binary64.signed_eq_zero_iff n₂ rank).mp hzero)
    rw [hmod, hrank]
    rfl
  · intro hne
    rw [Binary64.signed_pos_iff (mt (Binary64.signed_eq_zero_iff n₂ rank).mpr hne),
      Binary64.signed_pos_iff hr₂]
  · rw [Binary64.abs_signed _ (Binary64.magnitude_nonneg _),
      Binary64.abs_signed _ (Binary64.magnitude_nonneg _)]
    exact Binary64.magnitude_strictMono.monotone hle

-- Just below zero the remainder is rounded to the divisor itself.
theorem remainder_rounded_once_tiny :
    let least : Binary64 := .finite true ⟨1, by decide⟩
    Operator.mod.call (.binary least) (.binary .one) = .ok .one := by
  intro least
  have hx : least.toRat? = some (Binary64.signed true (Binary64.magnitude 1)) :=
    Binary64.toRat?_finite true ⟨1, by decide⟩
  have hy : Binary64.one.toRat? = some (Binary64.signed false (Binary64.magnitude Binary64.oneRank)) :=
    Binary64.toRat?_finite false ⟨Binary64.oneRank, by decide⟩
  have hdivisor : Binary64.signed false (Binary64.magnitude Binary64.oneRank) ≠ 0 :=
    mt (Binary64.signed_eq_zero_iff false Binary64.oneRank).mp (by decide +kernel)
  obtain ⟨result, _, hcall, hcompute, -⟩ :=
    remainder_rounded_once (.binary least) (.binary .one) rfl rfl hx hy hdivisor
  have hresult : Operator.mod.compute? least .one = some .one := by decide +kernel
  rw [hresult] at hcompute
  rw [hcall, ← Option.some.inj hcompute]

end PostfixCalc
