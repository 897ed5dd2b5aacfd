import PostfixCalc.Console.LineLoop
import PostfixCalc.Proofs.Text.Spacing

namespace PostfixCalc.Text

-- A text is a last line, or a line with a line feed behind it and then another text.
theorem lines_induction {P : List Char → Prop} (last : ∀ line, '\n' ∉ line → P line)
    (next : ∀ line rest, '\n' ∉ line → P rest → P (line ++ '\n' :: rest)) (text : List Char) :
    P text := by
  induction hlength : text.length using Nat.strongRecOn generalizing text with
  | ind length ih =>
    by_cases hmem : '\n' ∈ text
    · obtain ⟨line, rest, rfl, hline⟩ := List.eq_append_cons_of_mem hmem
      have hshorter : rest.length < length := by
        simp only [List.length_append, List.length_cons] at hlength
        omega
      exact next line rest hline (ih rest.length hshorter rest rfl)
    · exact last text hmem

theorem linesOf_append (line rest : List Char) (hline : '\n' ∉ line) :
    linesOf (line ++ '\n' :: rest) = (line ++ ['\n']) :: linesOf rest := by
  induction line with
  | nil => simp [linesOf]
  | cons c line ih =>
      obtain ⟨hc, hline⟩ := not_or.mp (mt List.mem_cons.mpr hline)
      rw [List.cons_append, linesOf, if_neg (Ne.symm hc), ih hline]
      rfl

theorem linesOf_last (line : List Char) (hline : '\n' ∉ line) :
    linesOf line = if line = [] then [] else [line] := by
  induction line with
  | nil => rfl
  | cons c line ih =>
      obtain ⟨hc, hline⟩ := not_or.mp (mt List.mem_cons.mpr hline)
      rw [linesOf, if_neg (Ne.symm hc), ih hline]
      by_cases hnil : line = [] <;> simp [hnil]

theorem takeLine_append (line rest : List Char) (hline : '\n' ∉ line) :
    takeLine (line ++ '\n' :: rest) = (line ++ ['\n'], rest) := by
  induction line with
  | nil => simp [takeLine]
  | cons c line ih =>
      obtain ⟨hc, hline⟩ := not_or.mp (mt List.mem_cons.mpr hline)
      rw [List.cons_append, takeLine, if_neg (Ne.symm hc), ih hline]
      rfl

theorem takeLine_last (line : List Char) (hline : '\n' ∉ line) : takeLine line = (line, []) := by
  induction line with
  | nil => rfl
  | cons c line ih =>
      obtain ⟨hc, hline⟩ := not_or.mp (mt List.mem_cons.mpr hline)
      rw [takeLine, if_neg (Ne.symm hc), ih hline]

-- The lines come off the text one after the other.
theorem exists_takeLine {text line : List Char} {lines : List (List Char)}
    (h : linesOf text = line :: lines) :
    line ≠ [] ∧ ∃ rest, takeLine text = (line, rest) ∧ linesOf rest = lines := by
  induction text using lines_induction with
  | last whole hwhole =>
      rw [linesOf_last whole hwhole] at h
      split at h
      · exact absurd h (by simp)
      · rename_i hne
        obtain ⟨rfl, rfl⟩ := List.cons.inj h
        exact ⟨hne, [], takeLine_last whole hwhole, rfl⟩
  | next first rest hfirst _ =>
      rw [linesOf_append first rest hfirst] at h
      obtain ⟨rfl, rfl⟩ := List.cons.inj h
      exact ⟨by simp, rest, takeLine_append first rest hfirst, rfl⟩

theorem linesOf_eq_nil_iff {text : List Char} : linesOf text = [] ↔ text = [] := by
  constructor
  · intro h
    induction text using lines_induction with
    | last line hline => simpa [linesOf_last line hline] using h
    | next line rest hline _ => exact absurd h (by simp [linesOf_append line rest hline])
  · rintro rfl
    rfl

-- A text up to the end of its first lines.
def firstLines (count : Nat) (text : String) : String := String.join ((lines text).take count)

theorem linesOf_flatten_take (text : List Char) (count : Nat) :
    linesOf ((linesOf text).take count).flatten = (linesOf text).take count := by
  induction text using lines_induction generalizing count with
  | last line hline =>
      cases count with
      | zero => rfl
      | succ count =>
          rw [linesOf_last line hline]
          split
          · rfl
          · rename_i hne
            simp [linesOf_last line hline, hne]
  | next line rest hline ih =>
      cases count with
      | zero => rfl
      | succ count =>
          rw [linesOf_append line rest hline, List.take_succ_cons, List.flatten_cons,
            List.append_assoc, List.singleton_append, linesOf_append line _ hline, ih]

theorem lines_firstLines (count : Nat) (text : String) :
    lines (firstLines count text) = (lines text).take count := by
  have hchars : (firstLines count text).toList = ((linesOf text.toList).take count).flatten := by
    simp [firstLines, lines, ← List.map_take, List.flatMap_map]
  rw [lines, lines, hchars, linesOf_flatten_take, List.map_take]

-- The texts between the line feeds. There is one more of them than there are line feeds.
def pieces (text : String) : List String := (text.toList.splitOn '\n').map String.ofList

-- A carriage return in front of every line feed.
def withReturnsOf (text : List Char) : List Char :=
  text.flatMap fun c => if c = '\n' then ['\r', '\n'] else [c]

def withReturns (text : String) : String := String.ofList (withReturnsOf text.toList)

theorem withReturnsOf_line (line : List Char) (hline : '\n' ∉ line) :
    withReturnsOf line = line := by
  induction line with
  | nil => rfl
  | cons c line ih =>
      obtain ⟨hc, hline⟩ := not_or.mp (mt List.mem_cons.mpr hline)
      have hrest := ih hline
      unfold withReturnsOf at hrest ⊢
      rw [List.flatMap_cons, hrest, if_neg (Ne.symm hc)]
      rfl

theorem withReturnsOf_append (line rest : List Char) (hline : '\n' ∉ line) :
    withReturnsOf (line ++ '\n' :: rest) = (line ++ ['\r']) ++ '\n' :: withReturnsOf rest := by
  have hfirst := withReturnsOf_line line hline
  unfold withReturnsOf at hfirst ⊢
  rw [List.flatMap_append, List.flatMap_cons, hfirst]
  simp

-- Carriage returns stand in front of line feeds only.
def ReturnsPaired (text : List Char) : Prop :=
  ∀ place, text[place]? = some '\r' → text[place + 1]? = some '\n'

theorem ReturnsPaired.of_append {before after : List Char} (h : ReturnsPaired (before ++ after)) :
    ReturnsPaired after := by
  intro place hplace
  have hlater := h (before.length + place)
  rw [List.getElem?_append_right (Nat.le_add_right _ _), Nat.add_assoc,
    List.getElem?_append_right (Nat.le_add_right _ _)] at hlater
  simp only [Nat.add_sub_cancel_left] at hlater
  exact hlater hplace

-- A carriage return in a line is its last character.
theorem ReturnsPaired.line_cases {line rest : List Char} (hline : '\n' ∉ line)
    (h : ReturnsPaired (line ++ rest)) :
    '\r' ∉ line ∨ ∃ start, line = start ++ ['\r'] ∧ '\r' ∉ start ∧ rest.head? = some '\n' := by
  by_cases hmem : '\r' ∈ line
  · right
    obtain ⟨start, more, rfl, hstart⟩ := List.eq_append_cons_of_mem hmem
    rw [List.append_assoc] at h
    have hfeed : (more ++ rest)[0]? = some '\n' := h.of_append 0 rfl
    cases more with
    | nil => exact ⟨start, rfl, hstart, by rwa [List.head?_eq_getElem?]⟩
    | cons c more =>
        -- the line feed would be in the line
        obtain rfl : c = '\n' := Option.some.inj hfeed
        simp at hline
  · exact .inl hmem

theorem unifyLineEndsOf_append (line rest : List Char) (hline : '\r' ∉ line) :
    unifyLineEndsOf (line ++ rest) = line ++ unifyLineEndsOf rest := by
  induction line with
  | nil => rfl
  | cons c line ih =>
      obtain ⟨hc, hline⟩ := not_or.mp (mt List.mem_cons.mpr hline)
      rw [List.cons_append, List.cons_append, ← ih hline]
      rw [unifyLineEndsOf]
      · rw [if_neg (Ne.symm hc)]
      · intro rest heq
        exact absurd heq.symm hc

-- The same words line by line. The second list may have a blank line more at its end.
inductive SameWords : List String → List String → Prop where
  | nil : SameWords [] []
  | blank (line : String) (hline : words line = []) : SameWords [] [line]
  | cons (first second : String) (lines others : List String) (hfirst : words first = words second)
      (hrest : SameWords lines others) : SameWords (first :: lines) (second :: others)

theorem sameWords_last (line : List Char) (hline : '\n' ∉ line) :
    SameWords ((linesOf line).map String.ofList) ((line.splitOn '\n').map String.ofList) := by
  rw [linesOf_last line hline, List.splitOn_eq_singleton hline]
  by_cases hnil : line = []
  · subst hnil
    exact .blank _ rfl
  · rw [if_neg hnil]
    exact .cons _ _ _ _ rfl .nil

-- What is read up to a line feed and what is cut off before it differ in blanks only.
theorem sameWords_next (line : List Char) {gap space rest other : List Char}
    (hfirst : '\n' ∉ line ++ gap) (hsecond : '\n' ∉ line ++ space)
    (hgap : IsGap gap) (hspace : IsGap space)
    (hrest : SameWords ((linesOf rest).map String.ofList)
      ((other.splitOn '\n').map String.ofList)) :
    SameWords ((linesOf (line ++ gap ++ '\n' :: rest)).map String.ofList)
      (((line ++ space ++ '\n' :: other).splitOn '\n').map String.ofList) := by
  have hends : IsGap (gap ++ ['\n']) := by
    intro c hc
    rcases List.mem_append.mp hc with hc | hc
    · exact hgap c hc
    · rw [List.mem_singleton.mp hc]
      rfl
  rw [linesOf_append _ rest hfirst, List.splitOn_append_cons_self_of_not_mem hsecond, List.map_cons,
    List.map_cons]
  refine .cons _ _ _ _ ?_ hrest
  rw [List.append_assoc, words_ofList_append_gap line _ hends, words_ofList_append_gap line _ hspace]

theorem sameWords_lines (text : String) : SameWords (lines text) (pieces text) := by
  unfold lines pieces
  induction text.toList using lines_induction with
  | last line hline => exact sameWords_last line hline
  | next line rest hline ih =>
      have hwhole : '\n' ∉ line ++ [] := by rwa [List.append_nil]
      simpa using sameWords_next line hwhole hwhole (by decide) (by decide) ih

theorem sameWords_withReturns (text : String) :
    SameWords (lines (withReturns text)) (pieces text) := by
  unfold lines pieces withReturns
  rw [String.toList_ofList]
  induction text.toList using lines_induction with
  | last line hline =>
      rw [withReturnsOf_line line hline]
      exact sameWords_last line hline
  | next line rest hline ih =>
      rw [withReturnsOf_append line rest hline]
      have hwhole : '\n' ∉ line ++ [] := by rwa [List.append_nil]
      have hreturn : '\n' ∉ line ++ ['\r'] := by simpa using hline
      simpa using sameWords_next line hreturn hwhole (by decide) (by decide) ih

theorem sameWords_unified (text : String) (hpaired : ReturnsPaired text.toList) :
    SameWords (lines (unifyLineEnds text)) (pieces text) := by
  unfold lines pieces unifyLineEnds
  rw [String.toList_ofList]
  generalize text.toList = text at hpaired ⊢
  induction text using lines_induction with
  | last line hline =>
      have hplain : '\r' ∉ line := by
        rw [← List.append_nil line] at hpaired
        rcases hpaired.line_cases hline with hplain | ⟨start, -, -, hfeed⟩
        · exact hplain
        · exact absurd hfeed (by simp)
      have hunified := unifyLineEndsOf_append line [] hplain
      simp only [unifyLineEndsOf, List.append_nil] at hunified
      rw [hunified]
      exact sameWords_last line hline
  | next line rest hline ih =>
      have hlater : ReturnsPaired rest := by
        rw [List.append_cons] at hpaired
        exact hpaired.of_append
      rcases hpaired.line_cases hline with hplain | ⟨start, rfl, hplain, -⟩
      · have hwhole : '\n' ∉ line ++ [] := by rwa [List.append_nil]
        rw [unifyLineEndsOf_append line _ hplain]
        simpa [unifyLineEndsOf] using
          sameWords_next line hwhole hwhole (by decide) (by decide) (ih hlater)
      · have hwhole : '\n' ∉ start ++ [] := fun hmem => hline (by simp_all)
        rw [List.append_assoc, unifyLineEndsOf_append start _ hplain]
        simpa [unifyLineEndsOf] using
          sameWords_next start hwhole hline (by decide) (by decide) (ih hlater)

end PostfixCalc.Text
