import PostfixCalc.Proofs.Text.Words

namespace PostfixCalc.Text

-- There is a character at the place, and it is not blank.
def SolidAt (text : List Char) (place : Nat) : Prop :=
  ∃ c, text[place]? = some c ∧ isBlank c = false

-- A stretch of a text, from one place up to another that is no longer part of it.
structure Span where
  start : Nat
  stop : Nat
  deriving DecidableEq

namespace Span

def chars (span : Span) (text : List Char) : List Char :=
  (text.drop span.start).take (span.stop - span.start)

-- The stretch is not empty and has no blank in it.
structure IsSolid (span : Span) (text : List Char) : Prop where
  lt : span.start < span.stop
  solidAt : ∀ place, span.start ≤ place → place < span.stop → SolidAt text place

-- No solid stretch goes beyond this one at either end.
structure IsMaximal (span : Span) (text : List Char) : Prop where
  isSolid : span.IsSolid text
  eq_of_within : ∀ other : Span, other.IsSolid text → other.start ≤ span.start →
    span.stop ≤ other.stop → other = span

def shift (places : Nat) (span : Span) : Span := ⟨span.start + places, span.stop + places⟩

end Span

theorem not_solidAt_gap {gap : List Char} (hgap : IsGap gap) (place : Nat) : ¬SolidAt gap place := by
  rintro ⟨c, hc, hsolid⟩
  have hblank := hgap c (List.mem_of_getElem? hc)
  exact absurd (hblank.symm.trans hsolid) (by simp)

theorem solidAt_word {word : List Char} (hword : IsWord word) (place : Nat) :
    SolidAt word place ↔ place < word.length := by
  constructor
  · rintro ⟨c, hc, -⟩
    exact (List.getElem?_eq_some_iff.mp hc).1
  · intro hplace
    exact ⟨word[place], List.getElem?_eq_getElem hplace, hword.2 _ (List.getElem_mem hplace)⟩

theorem solidAt_append (first second : List Char) (place : Nat) :
    SolidAt (first ++ second) place ↔
      SolidAt first place ∨ first.length ≤ place ∧ SolidAt second (place - first.length) := by
  unfold SolidAt
  rcases Nat.lt_or_ge place first.length with hlt | hge
  · rw [List.getElem?_append_left hlt]
    simp [Nat.not_le.mpr hlt]
  · rw [List.getElem?_append_right hge, List.getElem?_eq_none hge]
    simp [hge]

-- Where a text is solid: in its first word, and behind that, from some place on, where the rest is.
structure FirstWord (text rest : List Char) (start stop next : Nat) : Prop where
  lt : start < stop
  le : stop ≤ next
  solidAt_iff : ∀ place, SolidAt text place ↔
    start ≤ place ∧ place < stop ∨ next ≤ place ∧ SolidAt rest (place - next)
  last : stop = next → rest = []

theorem firstWord_append {before word gap rest : List Char} (hbefore : IsGap before)
    (hword : IsWord word) (hgap : IsGap gap) (hlast : gap = [] → rest = []) :
    FirstWord (before ++ (word ++ (gap ++ rest))) rest before.length
      (before.length + word.length) (before.length + word.length + gap.length) where
  lt := Nat.lt_add_of_pos_right (List.length_pos_iff.mpr hword.1)
  le := Nat.le_add_right _ _
  solidAt_iff place := by
    simp only [solidAt_append, not_solidAt_gap hbefore, not_solidAt_gap hgap, solidAt_word hword,
      false_or, Nat.sub_sub]
    constructor
    · rintro ⟨hbegin, hinside | ⟨hbehind, hrest, hsolid⟩⟩
      · exact .inl (by omega)
      · exact .inr ⟨by omega, hsolid⟩
    · rintro (hinside | ⟨hbehind, hsolid⟩)
      · exact ⟨by omega, .inl (by omega)⟩
      · exact ⟨by omega, .inr ⟨by omega, by omega, hsolid⟩⟩
  last hnogap := hlast (List.length_eq_zero_iff.mp (by omega))

namespace FirstWord

variable {text rest : List Char} {start stop next : Nat} {span : Span}

theorem not_solidAt_stop (h : FirstWord text rest start stop next) : ¬SolidAt text stop := by
  rw [h.solidAt_iff]
  rintro (hinside | ⟨hbehind, hsolid⟩)
  · omega
  · rw [h.last (Nat.le_antisymm h.le hbehind)] at hsolid
    obtain ⟨c, hc, -⟩ := hsolid
    exact absurd hc (by simp)

theorem isSolid_word (h : FirstWord text rest start stop next) : Span.IsSolid ⟨start, stop⟩ text where
  lt := h.lt
  solidAt place hstart hstop := (h.solidAt_iff place).mpr (.inl ⟨hstart, hstop⟩)

theorem isSolid_shift (h : FirstWord text rest start stop next) (hspan : span.IsSolid rest) :
    (span.shift next).IsSolid text where
  lt := Nat.add_lt_add_right hspan.lt next
  solidAt place hstart hstop := by
    simp only [Span.shift] at hstart hstop
    exact (h.solidAt_iff place).mpr
      (.inr ⟨by omega, hspan.solidAt (place - next) (by omega) (by omega)⟩)

-- A solid stretch is in the first word or in the rest.
theorem isSolid_cases (h : FirstWord text rest start stop next) (hspan : span.IsSolid text) :
    start ≤ span.start ∧ span.stop ≤ stop ∨
      ∃ inner : Span, inner.IsSolid rest ∧ span = inner.shift next := by
  have hle := h.le
  have hlt := hspan.lt
  rcases (h.solidAt_iff span.start).mp (hspan.solidAt _ (Nat.le_refl _) hlt) with hinside | ⟨hbehind, -⟩
  · left
    refine ⟨hinside.1, ?_⟩
    by_contra hbeyond
    exact h.not_solidAt_stop (hspan.solidAt stop (by omega) (by omega))
  · right
    refine ⟨⟨span.start - next, span.stop - next⟩, ⟨by simp only; omega, ?_⟩, ?_⟩
    · intro place hstart hstop
      simp only at hstart hstop
      have hsolid := hspan.solidAt (place + next) (by omega) (by omega)
      rcases (h.solidAt_iff _).mp hsolid with hinside | ⟨-, hrest⟩
      · omega
      · rwa [Nat.add_sub_cancel] at hrest
    · obtain ⟨first, last⟩ := span
      simp only [Span.shift, Span.mk.injEq] at hbehind hlt ⊢
      omega

theorem isMaximal_word (h : FirstWord text rest start stop next) :
    Span.IsMaximal ⟨start, stop⟩ text where
  isSolid := h.isSolid_word
  eq_of_within other hother hstart hstop := by
    have hlt := h.lt
    have hle := h.le
    rcases h.isSolid_cases hother with ⟨hbegin, hend⟩ | ⟨inner, -, rfl⟩
    · exact congrArg₂ Span.mk (Nat.le_antisymm hstart hbegin) (Nat.le_antisymm hend hstop)
    · simp only [Span.shift] at hstart
      omega

theorem isMaximal_shift (h : FirstWord text rest start stop next) (hspan : span.IsMaximal rest) :
    (span.shift next).IsMaximal text where
  isSolid := h.isSolid_shift hspan.isSolid
  eq_of_within other hother hstart hstop := by
    have hle := h.le
    have hlt := hspan.isSolid.lt
    simp only [Span.shift] at hstart hstop
    rcases h.isSolid_cases hother with ⟨hbegin, hend⟩ | ⟨inner, hinner, rfl⟩
    · omega
    · simp only [Span.shift] at hstart hstop
      rw [hspan.eq_of_within inner hinner (by omega) (by omega)]

theorem isMaximal_cases (h : FirstWord text rest start stop next) (hspan : span.IsMaximal text) :
    span = ⟨start, stop⟩ ∨ ∃ inner : Span, inner.IsMaximal rest ∧ span = inner.shift next := by
  rcases h.isSolid_cases hspan.isSolid with ⟨hstart, hstop⟩ | ⟨inner, hinner, rfl⟩
  · exact .inl (hspan.eq_of_within ⟨start, stop⟩ h.isSolid_word hstart hstop).symm
  · refine .inr ⟨inner, ⟨hinner, fun other hother hstart hstop => ?_⟩, rfl⟩
    have hsame := hspan.eq_of_within (other.shift next) (h.isSolid_shift hother)
      (Nat.add_le_add_right hstart next) (Nat.add_le_add_right hstop next)
    obtain ⟨first, last⟩ := other
    obtain ⟨hfirst, hlast⟩ := Span.mk.inj hsame
    exact congrArg₂ Span.mk (Nat.add_right_cancel hfirst) (Nat.add_right_cancel hlast)

end FirstWord

-- The maximal solid stretches of a text, all of them and in order.
structure AreRuns (spans : List Span) (text : List Char) : Prop where
  ordered : spans.Pairwise fun first second => first.stop < second.start
  mem_iff : ∀ span, span ∈ spans ↔ span.IsMaximal text

theorem areRuns_gap {gap : List Char} (hgap : IsGap gap) : AreRuns [] gap where
  ordered := .nil
  mem_iff span := by
    refine iff_of_false (by simp) fun hspan => ?_
    exact not_solidAt_gap hgap span.start
      (hspan.isSolid.solidAt span.start (Nat.le_refl _) hspan.isSolid.lt)

theorem AreRuns.next {text rest : List Char} {start stop next : Nat} {spans : List Span}
    (hruns : AreRuns spans rest) (h : FirstWord text rest start stop next) :
    AreRuns (⟨start, stop⟩ :: spans.map (Span.shift next)) text where
  ordered := by
    rw [List.pairwise_cons, List.pairwise_map]
    constructor
    · intro span hspan
      obtain ⟨inner, hinner, rfl⟩ := List.mem_map.mp hspan
      have hsolid := ((hruns.mem_iff inner).mp hinner).isSolid
      -- there is a gap before the rest, since the rest is not empty
      have hne : stop ≠ next := by
        intro heq
        obtain ⟨c, hc, -⟩ := hsolid.solidAt inner.start (Nat.le_refl _) hsolid.lt
        rw [h.last heq] at hc
        exact absurd hc (by simp)
      have hle := h.le
      simp only [Span.shift]
      omega
    · refine hruns.ordered.imp ?_
      intro first second hlt
      exact Nat.add_lt_add_right hlt next
  mem_iff span := by
    rw [List.mem_cons, List.mem_map]
    constructor
    · rintro (rfl | ⟨inner, hinner, rfl⟩)
      · exact h.isMaximal_word
      · exact h.isMaximal_shift ((hruns.mem_iff inner).mp hinner)
    · intro hspan
      refine (h.isMaximal_cases hspan).imp_right ?_
      rintro ⟨inner, hinner, rfl⟩
      exact ⟨inner, (hruns.mem_iff inner).mpr hinner, rfl⟩

theorem chars_shift_append (before rest : List Char) (span : Span) :
    (span.shift before.length).chars (before ++ rest) = span.chars rest := by
  have hdrop : (before ++ rest).drop (before.length + span.start) = rest.drop span.start :=
    List.drop_length_add_append span.start
  rw [Span.chars, Span.chars, Span.shift, Nat.add_sub_add_right, Nat.add_comm, hdrop]

theorem exists_areRuns (text : List Char) :
    ∃ spans, AreRuns spans text ∧ wordsOf text = spans.map (·.chars text) := by
  induction text using words_induction with
  | blank gap hgap => exact ⟨[], areRuns_gap hgap, wordsOf_gap gap hgap⟩
  | next before word gap rest hbefore hword hgap hrest hlast ih =>
      obtain ⟨spans, hruns, hspans⟩ := ih
      refine ⟨_, hruns.next (firstWord_append hbefore hword hgap hlast), ?_⟩
      rw [wordsOf_next hbefore hword hgap hlast, hspans, List.map_cons, List.map_map]
      congr 1
      · simp [Span.chars]
      · apply List.map_congr_left
        intro span _
        have hchars := chars_shift_append (before ++ word ++ gap) rest span
        simpa [Nat.add_assoc] using hchars.symm

-- The words of a line are its maximal stretches without blanks, in order. There is nothing else to
-- them: no word is empty or has a blank in it, together they are the line without its blanks, and they
-- are what trimming the line and cutting it at its gaps leads to. Words that are written with blanks
-- between them, and perhaps at the ends, are read again.
theorem words_are_runs (line : String) :
    (∃ spans, AreRuns spans line.toList ∧
      words line = spans.map fun span => String.ofList (span.chars line.toList)) ∧
    (∀ word ∈ words line, IsWord word.toList) ∧
    (words line).flatMap String.toList = line.toList.filter (!isBlank ·) ∧
    words line = trimmedWords line ∧
    ∀ ws, words line = ws ↔ (∀ word ∈ ws, IsWord word.toList) ∧ Spaced ws line.toList := by
  refine ⟨?_, (words_eq_iff.mp rfl).1, ?_, words_eq_trimmedWords line, fun _ => words_eq_iff⟩
  · obtain ⟨spans, hruns, hspans⟩ := exists_areRuns line.toList
    refine ⟨spans, hruns, ?_⟩
    rw [words, hspans, List.map_map]
    rfl
  · rw [words, List.flatMap_map, ← flatten_wordsOf]
    simp [List.flatMap_id']

end PostfixCalc.Text
