import PostfixCalc.Numeral
import PostfixCalc.Proofs.Decimal

namespace PostfixCalc.Numeral

-- A numeral without its sign.
def bodyChars (numeral : Numeral) : List Char :=
  Decimal.toChars numeral.whole ++
    (if numeral.fraction = [] then [] else '.' :: Decimal.toChars numeral.fraction)

theorem toChars_eq (numeral : Numeral) :
    numeral.toChars = (if numeral.negative then ['-'] else []) ++ numeral.bodyChars :=
  List.append_assoc _ _ _

private theorem no_point (digits : List Digit) :
    ∀ c ∈ Decimal.toChars digits, (c != '.') = true := by
  intro c hc
  obtain ⟨digit, rfl⟩ := Decimal.exists_of_mem_toChars hc
  simp [Decimal.toChar_ne_point digit]

theorem takeWhile_bodyChars (numeral : Numeral) :
    numeral.bodyChars.takeWhile (· != '.') = Decimal.toChars numeral.whole := by
  unfold bodyChars
  rw [List.takeWhile_append_of_pos (no_point numeral.whole)]
  split <;> simp

theorem dropWhile_bodyChars (numeral : Numeral) :
    numeral.bodyChars.dropWhile (· != '.') =
      if numeral.fraction = [] then [] else '.' :: Decimal.toChars numeral.fraction := by
  unfold bodyChars
  rw [List.dropWhile_append_of_pos (no_point numeral.whole)]
  split <;> simp

theorem unsigned?_bodyChars (numeral : Numeral) :
    unsigned? numeral.negative numeral.bodyChars = some numeral := by
  unfold unsigned?
  rw [takeWhile_bodyChars, dropWhile_bodyChars]
  obtain ⟨negative, whole, fraction, hwhole⟩ := numeral
  by_cases hfraction : fraction = [] <;> simp [hfraction, hwhole]

theorem bodyChars_of_unsigned? {negative : Bool} {body : List Char} {numeral : Numeral}
    (h : unsigned? negative body = some numeral) :
    numeral.negative = negative ∧ numeral.bodyChars = body := by
  have hparts := List.takeWhile_append_dropWhile (p := (· != '.')) (l := body)
  have hpoint := List.head?_dropWhile_not (· != '.') body
  unfold unsigned? at h
  split at h
  · rename_i whole hwhole hafter
    rw [Decimal.ofChars?_eq_some_iff.mp hwhole, hafter] at hparts
    split at h
    · obtain rfl := Option.some.inj h
      exact ⟨rfl, by simpa [bodyChars] using hparts⟩
    · exact absurd h (by simp)
  · rename_i whole point rest hwhole hafter
    have hp : point = '.' := by simpa [hafter] using hpoint
    rw [Decimal.ofChars?_eq_some_iff.mp hwhole, hafter, hp] at hparts
    split at h
    · rename_i fraction hfraction
      rw [Decimal.ofChars?_eq_some_iff.mp hfraction] at hparts
      split at h
      · split at h
        · exact absurd h (by simp)
        · rename_i hne
          obtain rfl := Option.some.inj h
          exact ⟨rfl, by simpa [bodyChars, hne] using hparts⟩
      · exact absurd h (by simp)
    · exact absurd h (by simp)
  · exact absurd h (by simp)

private theorem bodyChars_head_ne_minus (numeral : Numeral) (rest : List Char) :
    numeral.bodyChars ≠ '-' :: rest := by
  intro h
  obtain ⟨digit, digits, hwhole⟩ := List.exists_cons_of_ne_nil numeral.whole_ne_nil
  rw [bodyChars, hwhole] at h
  exact Decimal.toChar_ne_minus digit (List.cons.inj h).1

@[simp] theorem ofChars?_toChars (numeral : Numeral) : ofChars? numeral.toChars = some numeral := by
  rw [toChars_eq]
  have hbody := unsigned?_bodyChars numeral
  cases hsign : numeral.negative with
  | true => simpa [ofChars?, hsign] using hbody
  | false =>
      rw [hsign] at hbody
      simp only [Bool.false_eq_true, ite_false, List.nil_append]
      unfold ofChars?
      split
      · exact absurd ‹_› (bodyChars_head_ne_minus numeral _)
      · exact hbody

theorem ofChars?_eq_some_iff {cs : List Char} {numeral : Numeral} :
    ofChars? cs = some numeral ↔ cs = numeral.toChars := by
  constructor
  · intro h
    unfold ofChars? at h
    split at h
    · obtain ⟨hsign, hbody⟩ := bodyChars_of_unsigned? h
      rw [toChars_eq, hsign, hbody]
      rfl
    · obtain ⟨hsign, hbody⟩ := bodyChars_of_unsigned? h
      rw [toChars_eq, hsign, hbody]
      rfl
  · rintro rfl
    exact ofChars?_toChars numeral

@[simp] theorem toList_text (numeral : Numeral) : numeral.text.toList = numeral.toChars := by
  simp [text]

theorem ofText?_eq_some_iff {text : String} {numeral : Numeral} :
    ofText? text = some numeral ↔ text = numeral.text := by
  rw [ofText?, ofChars?_eq_some_iff, ← toList_text, String.toList_inj]

@[simp] theorem ofText?_text (numeral : Numeral) : ofText? numeral.text = some numeral :=
  ofText?_eq_some_iff.mpr rfl

-- Nothing but digits, minus signs and points is part of a numeral.
theorem mem_toChars {numeral : Numeral} {c : Char} (hc : c ∈ numeral.toChars) :
    c = '-' ∨ c = '.' ∨ ∃ digit, c = Decimal.toChar digit := by
  simp only [toChars, List.mem_append] at hc
  rcases hc with (hc | hc) | hc
  · split at hc <;> simp_all
  · exact .inr (.inr (Decimal.exists_of_mem_toChars hc))
  · split at hc
    · simp at hc
    · rcases List.mem_cons.mp hc with rfl | hc
      · exact .inr (.inl rfl)
      · exact .inr (.inr (Decimal.exists_of_mem_toChars hc))

theorem toChars_ne_nil (numeral : Numeral) : numeral.toChars ≠ [] := by
  simp [toChars, Decimal.toChars_eq_nil_iff, numeral.whole_ne_nil]

end PostfixCalc.Numeral
