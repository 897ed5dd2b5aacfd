import PostfixCalc.Text.Blank

namespace PostfixCalc.Text

def IsGap (text : List Char) : Prop := ∀ c ∈ text, isBlank c = true

def IsWord (text : List Char) : Prop := text ≠ [] ∧ ∀ c ∈ text, isBlank c = false

instance (text : List Char) : Decidable (IsGap text) :=
  List.decidableBAll _ text

instance (text : List Char) : Decidable (IsWord text) :=
  @instDecidableAnd _ _ inferInstance (List.decidableBAll _ text)

-- A line in which some words stand one after the other, with blanks between any two of them and
-- perhaps more at either end.
inductive Spaced : List String → List Char → Prop where
  | nil (gap : List Char) (hgap : IsGap gap) : Spaced [] gap
  | cons (before gap rest : List Char) (word : String) (words : List String)
      (hbefore : IsGap before) (hgap : IsGap gap) (hseparated : words ≠ [] → gap ≠ [])
      (hrest : Spaced words rest) : Spaced (word :: words) (before ++ (word.toList ++ (gap ++ rest)))

theorem wordsOf_cons_blank (c : Char) (rest : List Char) (hc : isBlank c = true) :
    wordsOf (c :: rest) = wordsOf rest := by
  cases rest with
  | nil => simp [wordsOf, hc]
  | cons next rest => simp [wordsOf, hc]

theorem wordsOf_gap_append (gap rest : List Char) (hgap : IsGap gap) :
    wordsOf (gap ++ rest) = wordsOf rest := by
  induction gap with
  | nil => rfl
  | cons c gap ih =>
      rw [List.cons_append, wordsOf_cons_blank c _ (hgap c (by simp))]
      exact ih (fun d hd => hgap d (List.mem_cons_of_mem _ hd))

theorem wordsOf_gap (gap : List Char) (hgap : IsGap gap) : wordsOf gap = [] := by
  simpa [wordsOf] using wordsOf_gap_append gap [] hgap

-- A word ends where the text ends or a blank follows.
theorem wordsOf_word_append (word rest : List Char) (hword : IsWord word)
    (hrest : ∀ c ∈ rest.head?, isBlank c = true) :
    wordsOf (word ++ rest) = word :: wordsOf rest := by
  obtain ⟨hne, hsolid⟩ := hword
  induction word with
  | nil => exact absurd rfl hne
  | cons c word ih =>
      have hc := hsolid c (by simp)
      cases word with
      | nil =>
          cases rest with
          | nil => simp [wordsOf, hc]
          | cons b rest =>
              have hb := hrest b (by simp)
              simp [wordsOf, hc, hb]
      | cons d word =>
          have hd := hsolid d (by simp)
          have hlater := ih (by simp) (fun e he => hsolid e (List.mem_cons_of_mem _ he))
          simp only [List.cons_append] at hlater ⊢
          simp [wordsOf, hc, hd, hlater, extendFirst]

theorem wordsOf_word (word : List Char) (hword : IsWord word) : wordsOf word = [word] := by
  simpa [wordsOf] using wordsOf_word_append word [] hword (by simp)

-- Blanks at the end of a text are as good as none.
theorem wordsOf_append_gap (text gap : List Char) (hgap : IsGap gap) :
    wordsOf (text ++ gap) = wordsOf text := by
  induction text using wordsOf.induct with
  | case1 => exact wordsOf_gap gap hgap
  | case2 c hc =>
      rw [List.singleton_append, wordsOf_cons_blank c gap hc, wordsOf_cons_blank c [] hc,
        wordsOf_gap gap hgap, wordsOf]
  | case3 c hc =>
      have hword : IsWord [c] := ⟨by simp, by simpa using hc⟩
      have hhead : ∀ b ∈ gap.head?, isBlank b = true := fun b hb => hgap b (List.mem_of_mem_head? hb)
      rw [wordsOf_word_append [c] gap hword hhead, wordsOf_gap gap hgap, wordsOf_word [c] hword]
  | case4 c next rest hc ih => simpa [wordsOf, hc] using ih
  | case5 c next rest hc hnext ih => simpa [wordsOf, hc, hnext] using ih
  | case6 c next rest hc hnext ih => simpa [wordsOf, hc, hnext] using congrArg (extendFirst c) ih

private theorem head_gap_append (words : List String) (gap rest : List Char)
    (hgap : IsGap gap) (hseparated : words ≠ [] → gap ≠ []) (hrest : Spaced words rest) :
    ∀ c ∈ (gap ++ rest).head?, isBlank c = true := by
  intro c hc
  cases gap with
  | cons b gap => exact hgap c (by simp_all)
  | nil =>
      cases hrest with
      | nil _ hblank => exact hblank c (List.mem_of_mem_head? hc)
      | cons => exact absurd rfl (hseparated (by simp))

theorem wordsOf_spaced (words : List String) (line : List Char)
    (hwords : ∀ word ∈ words, IsWord word.toList) (hline : Spaced words line) :
    wordsOf line = words.map String.toList := by
  induction hline with
  | nil gap hgap => exact wordsOf_gap gap hgap
  | cons before gap rest word words hbefore hgap hseparated hrest ih =>
      have hlater := ih (fun other ho => hwords other (List.mem_cons_of_mem _ ho))
      have hhead := head_gap_append words gap rest hgap hseparated hrest
      rw [wordsOf_gap_append before _ hbefore,
        wordsOf_word_append word.toList _ (hwords word (by simp)) hhead,
        wordsOf_gap_append gap rest hgap, hlater, List.map_cons]

theorem words_spaced (words : List String) (line : String)
    (hwords : ∀ word ∈ words, IsWord word.toList) (hline : Spaced words line.toList) :
    Text.words line = words := by
  rw [Text.words, wordsOf_spaced words line.toList hwords hline, List.map_map]
  simp [Function.comp_def]

-- Other words can stand between the same blanks.
theorem Spaced.exists_map (f : String → String) {words : List String} {line : List Char}
    (h : Spaced words line) : ∃ other, Spaced (words.map f) other := by
  induction h with
  | nil gap hgap => exact ⟨gap, .nil gap hgap⟩
  | cons before gap rest word words hbefore hgap hseparated hrest ih =>
      obtain ⟨other, hother⟩ := ih
      exact ⟨_, .cons before gap other (f word) (words.map f) hbefore hgap (by simpa using hseparated)
        hother⟩

theorem words_ofList_append_gap (text gap : List Char) (hgap : IsGap gap) :
    words (String.ofList (text ++ gap)) = words (String.ofList text) := by
  simp only [words, String.toList_ofList, wordsOf_append_gap text gap hgap]

theorem words_word (word : String) (hword : IsWord word.toList) : words word = [word] := by
  simp [words, wordsOf_word word.toList hword]

end PostfixCalc.Text
