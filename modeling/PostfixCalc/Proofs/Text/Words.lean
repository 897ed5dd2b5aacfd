import Mathlib.Data.List.DropRight
import Mathlib.Data.List.TakeWhile
import PostfixCalc.Proofs.Text.Spacing
import PostfixCalc.Text.Trimmed

namespace PostfixCalc.Text

-- A text begins with as many characters of one sort as there are.
private theorem exists_run (p : Char → Bool) (text : List Char) :
    ∃ run rest, text = run ++ rest ∧ (∀ c ∈ run, p c = true) ∧ ∀ c ∈ rest.head?, p c = false := by
  refine ⟨text.takeWhile p, text.dropWhile p, List.takeWhile_append_dropWhile.symm,
    fun c hc => List.mem_takeWhile_imp hc, ?_⟩
  intro c hc
  have hhead := List.head?_dropWhile_not p text
  rw [Option.mem_def.mp hc] at hhead
  exact hhead

-- A text is nothing but blanks, or there is a first word in it. Behind the word are blanks, up to the
-- next word, or nothing at all.
theorem words_induction {P : List Char → Prop} (blank : ∀ gap, IsGap gap → P gap)
    (next : ∀ before word gap rest, IsGap before → IsWord word → IsGap gap →
      (∀ c ∈ rest.head?, isBlank c = false) → (gap = [] → rest = []) → P rest →
        P (before ++ (word ++ (gap ++ rest))))
    (text : List Char) : P text := by
  induction hlength : text.length using Nat.strongRecOn generalizing text with
  | ind length ih =>
    obtain ⟨before, text, rfl, hbefore, hsolid⟩ := exists_run isBlank text
    obtain ⟨word, text, rfl, hword, hblank⟩ := exists_run (!isBlank ·) text
    obtain ⟨gap, rest, rfl, hgap, hrest⟩ := exists_run isBlank text
    simp only [Bool.not_eq_true', Bool.not_eq_false'] at hword hblank
    by_cases hnil : word = []
    · -- what is neither blank nor not blank is nothing
      have hnothing : gap ++ rest = [] := by
        cases hcase : gap ++ rest with
        | nil => rfl
        | cons c more =>
            have htrue := hblank c (by simp [hcase])
            have hfalse := hsolid c (by simp [hnil, hcase])
            exact absurd (htrue.symm.trans hfalse) (by simp)
      rw [hnil, hnothing, List.append_nil, List.append_nil]
      exact blank before hbefore
    · have hlong := List.length_pos_iff.mpr hnil
      have hshorter : rest.length < length := by
        simp only [List.length_append] at hlength
        omega
      refine next before word gap rest hbefore ⟨hnil, hword⟩ hgap hrest ?_
        (ih rest.length hshorter rest rfl)
      rintro rfl
      cases rest with
      | nil => rfl
      | cons c more =>
          have htrue := hblank c rfl
          have hfalse := hrest c rfl
          exact absurd (htrue.symm.trans hfalse) (by simp)

theorem isBlank_head_append {gap rest : List Char} (hgap : IsGap gap) (hlast : gap = [] → rest = []) :
    ∀ c ∈ (gap ++ rest).head?, isBlank c = true := by
  intro c hc
  cases gap with
  | nil => simp [hlast rfl] at hc
  | cons b gap =>
      obtain rfl : b = c := by simpa using hc
      exact hgap b List.mem_cons_self

theorem wordsOf_next {before word gap rest : List Char} (hbefore : IsGap before)
    (hword : IsWord word) (hgap : IsGap gap) (hlast : gap = [] → rest = []) :
    wordsOf (before ++ (word ++ (gap ++ rest))) = word :: wordsOf rest := by
  rw [wordsOf_gap_append before _ hbefore,
    wordsOf_word_append word _ hword (isBlank_head_append hgap hlast), wordsOf_gap_append gap rest hgap]

theorem isWord_of_mem_wordsOf (text : List Char) : ∀ word ∈ wordsOf text, IsWord word := by
  induction text using words_induction with
  | blank gap hgap => simp [wordsOf_gap gap hgap]
  | next before word gap rest hbefore hword hgap hrest hlast ih =>
      rw [wordsOf_next hbefore hword hgap hlast, List.forall_mem_cons]
      exact ⟨hword, ih⟩

-- The words have all characters of the text but the blanks.
theorem flatten_wordsOf (text : List Char) :
    (wordsOf text).flatten = text.filter (!isBlank ·) := by
  have hgaps (gap : List Char) (hgap : IsGap gap) : gap.filter (!isBlank ·) = [] := by
    simpa [IsGap] using hgap
  induction text using words_induction with
  | blank gap hgap => rw [wordsOf_gap gap hgap, hgaps gap hgap, List.flatten_nil]
  | next before word gap rest hbefore hword hgap hrest hlast ih =>
      have hsolid : word.filter (!isBlank ·) = word := by simpa using hword.2
      rw [wordsOf_next hbefore hword hgap hlast, List.flatten_cons, ih, List.filter_append,
        List.filter_append, List.filter_append, hgaps before hbefore, hgaps gap hgap, hsolid,
        List.nil_append, List.nil_append]

theorem spaced_wordsOf (text : List Char) : Spaced ((wordsOf text).map String.ofList) text := by
  induction text using words_induction with
  | blank gap hgap =>
      rw [wordsOf_gap gap hgap]
      exact .nil gap hgap
  | next before word gap rest hbefore hword hgap hrest hlast ih =>
      rw [wordsOf_next hbefore hword hgap hlast, List.map_cons]
      have hspaced := Spaced.cons before gap rest (String.ofList word) _ hbefore hgap ?_ ih
      · rwa [String.toList_ofList] at hspaced
      · rintro hwords rfl
        rw [hlast rfl] at hwords
        exact hwords rfl

-- The words stand in the text with blanks around them, and no other words do.
theorem words_eq_iff {line : String} {ws : List String} :
    words line = ws ↔ (∀ word ∈ ws, IsWord word.toList) ∧ Spaced ws line.toList := by
  constructor
  · rintro rfl
    refine ⟨?_, spaced_wordsOf line.toList⟩
    intro word hword
    obtain ⟨chars, hchars, rfl⟩ := List.mem_map.mp hword
    rw [String.toList_ofList]
    exact isWord_of_mem_wordsOf line.toList chars hchars
  · rintro ⟨hwords, hline⟩
    exact words_spaced ws line hwords hline

theorem cutAtGaps_solid {text : List Char} (h : ∀ c ∈ text, isBlank c = false) :
    cutAtGaps text = [text] := by
  have hsolid : ∀ c ∈ text, (!isBlank c) = true := by simpa using h
  rw [cutAtGaps]
  split
  · rw [List.takeWhile_eq_self_iff.mpr hsolid]
  · rename_i c rest hrest
    rw [List.dropWhile_eq_nil_iff.mpr hsolid] at hrest
    exact absurd hrest (by simp)

theorem cutAtGaps_append {word gap rest : List Char} (hword : ∀ c ∈ word, isBlank c = false)
    (hgap : IsGap gap) (hne : gap ≠ []) (hrest : ∀ c ∈ rest.head?, isBlank c = false) :
    cutAtGaps (word ++ (gap ++ rest)) = word :: cutAtGaps rest := by
  have hsolid : ∀ c ∈ word, (!isBlank c) = true := by simpa using hword
  obtain ⟨b, gap, rfl⟩ := List.exists_cons_of_ne_nil hne
  have hb : (!isBlank b) = false := by simpa using hgap b List.mem_cons_self
  have hmore : ∀ c ∈ gap, isBlank c = true := fun c hc => hgap c (List.mem_cons_of_mem _ hc)
  have hstop : rest.dropWhile isBlank = rest := by
    cases rest with
    | nil => rfl
    | cons c rest => rw [List.dropWhile_cons, hrest c rfl]; rfl
  rw [cutAtGaps]
  simp only [List.cons_append]
  rw [List.takeWhile_append_of_pos hsolid, List.takeWhile_cons, hb]
  split
  · rename_i hnil
    rw [List.dropWhile_append_of_pos hsolid, List.dropWhile_cons, hb] at hnil
    exact absurd hnil (by simp)
  · rename_i c more hmore'
    rw [List.dropWhile_append_of_pos hsolid, List.dropWhile_cons, hb] at hmore'
    obtain ⟨rfl, rfl⟩ := List.cons.inj hmore'
    rw [List.dropWhile_append_of_pos hmore, hstop]
    simp

-- Neither end of the text is blank.
structure IsTrimmed (text : List Char) : Prop where
  head : ∀ c ∈ text.head?, isBlank c = false
  last : ∀ c ∈ text.getLast?, isBlank c = false

-- Cut at its gaps, a trimmed text has no empty piece.
theorem cutAtGaps_trimmed {text : List Char} (h : IsTrimmed text) (hne : text ≠ []) :
    cutAtGaps text = wordsOf text := by
  induction text using words_induction with
  | blank gap hgap =>
      obtain ⟨c, gap, rfl⟩ := List.exists_cons_of_ne_nil hne
      exact absurd ((hgap c List.mem_cons_self).symm.trans (h.head c rfl)) (by simp)
  | next before word gap rest hbefore hword hgap hrest hlast ih =>
      obtain rfl : before = [] := by
        cases before with
        | nil => rfl
        | cons c before =>
            exact absurd ((hbefore c List.mem_cons_self).symm.trans (h.head c rfl)) (by simp)
      rw [wordsOf_next hbefore hword hgap hlast, List.nil_append]
      rw [List.nil_append] at h
      by_cases hend : rest = []
      · have hnogap : gap = [] := by
          by_contra hgap'
          have hmem := List.getLast_mem hgap'
          have hsolid := h.last (gap.getLast hgap') (by
            rw [hend, List.append_nil, List.getLast?_append_of_ne_nil _ hgap',
              List.getLast?_eq_getLast_of_ne_nil hgap']
            rfl)
          exact absurd ((hgap _ hmem).symm.trans hsolid) (by simp)
        rw [hend, hnogap, List.append_nil, List.append_nil, cutAtGaps_solid hword.2]
        rfl
      · have hgap' : gap ≠ [] := mt hlast hend
        have htrimmed : IsTrimmed rest := by
          refine ⟨hrest, fun c hc => h.last c ?_⟩
          rwa [List.getLast?_append_of_ne_nil _ (by simp [hend]),
            List.getLast?_append_of_ne_nil _ hend]
        rw [cutAtGaps_append hword.2 hgap hgap' hrest, ih htrimmed hend]

-- Trimming takes blanks off both ends and nothing else.
theorem exists_trim (text : List Char) :
    ∃ before after, IsGap before ∧ IsGap after ∧ text = before ++ (trim text ++ after) := by
  refine ⟨text.takeWhile isBlank, (text.dropWhile isBlank).rtakeWhile isBlank,
    fun c hc => List.mem_takeWhile_imp hc, fun c hc => List.mem_rtakeWhile_imp hc, ?_⟩
  change text = _ ++ ((text.dropWhile isBlank).rdropWhile isBlank ++ _)
  rw [List.rdropWhile_append_rtakeWhile, List.takeWhile_append_dropWhile]

theorem isTrimmed_trim (text : List Char) : IsTrimmed (trim text) where
  head c hc := by
    obtain ⟨after, hafter⟩ := List.rdropWhile_prefix isBlank (text.dropWhile isBlank)
    have hhead := List.head?_dropWhile_not isBlank text
    change trim text ++ after = _ at hafter
    rw [← hafter, List.head?_append, Option.mem_def.mp hc] at hhead
    exact hhead
  last c hc := by
    have hhead := List.head?_dropWhile_not isBlank (text.dropWhile isBlank).reverse
    rw [trim, List.getLast?_reverse] at hc
    rw [Option.mem_def.mp hc] at hhead
    exact hhead

theorem wordsOf_trim (text : List Char) : wordsOf (trim text) = wordsOf text := by
  obtain ⟨before, after, hbefore, hafter, htext⟩ := exists_trim text
  conv_rhs => rw [htext]
  rw [wordsOf_gap_append before _ hbefore, wordsOf_append_gap _ after hafter]

theorem words_eq_trimmedWords (line : String) : words line = trimmedWords line := by
  rw [words, ← wordsOf_trim, trimmedWords]
  split
  · rename_i hnil
    rw [hnil]
    rfl
  · rename_i hne
    rw [cutAtGaps_trimmed (isTrimmed_trim line.toList) hne]

end PostfixCalc.Text
