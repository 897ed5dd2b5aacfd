import Mathlib.Data.List.TakeWhile
import PostfixCalc.Text.Quoted

namespace PostfixCalc.Text

-- What can stand between two commas of a list.
def IsItem (item : List Char) : Prop := item ≠ [] ∧ ',' ∉ item

-- A text that has some items between brackets, and commas between any two of them.
structure Lists (opening closing : String) (items : List String) (text : String) : Prop where
  isItem : ∀ item ∈ items, IsItem item.toList
  text_eq : text = bracketed opening closing items

-- What comes behind an item when others follow it.
private def behindItem : List (List Char) → List Char
  | [] => []
  | items => ',' :: ' ' :: [',', ' '].intercalate items

private theorem intercalate_cons (item : List Char) (rest : List (List Char)) :
    [',', ' '].intercalate (item :: rest) = item ++ behindItem rest := by
  cases rest with
  | nil => rw [List.intercalate_singleton, behindItem, List.append_nil]
  | cons next rest => simp [behindItem]

private theorem takeWhile_item {item : List Char} (hitem : IsItem item) (rest : List (List Char)) :
    (item ++ behindItem rest).takeWhile (· != ',') = item := by
  have hsolid : ∀ c ∈ item, (c != ',') = true := by
    intro c hc
    rw [bne_iff_ne]
    rintro rfl
    exact hitem.2 hc
  rw [List.takeWhile_append_of_pos hsolid]
  cases rest <;> simp [behindItem]

-- An item goes up to the first comma or to the end, so that it can be told from what is behind it.
private theorem eq_of_append_behindItem {item other : List Char} {items others : List (List Char)}
    (hitem : IsItem item) (hother : IsItem other)
    (h : item ++ behindItem items = other ++ behindItem others) :
    item = other ∧ behindItem items = behindItem others := by
  have hsame : item = other := by
    rw [← takeWhile_item hitem items, h, takeWhile_item hother others]
  rw [hsame] at h
  exact ⟨hsame, List.append_cancel_left h⟩

theorem eq_of_intercalate_eq {items others : List (List Char)} (hitems : ∀ item ∈ items, IsItem item)
    (hothers : ∀ item ∈ others, IsItem item)
    (h : [',', ' '].intercalate items = [',', ' '].intercalate others) : items = others := by
  induction items generalizing others with
  | nil =>
      cases others with
      | nil => rfl
      | cons other others =>
          rw [intercalate_cons] at h
          exact absurd (List.append_eq_nil_iff.mp h.symm).1 (hothers other (by simp)).1
  | cons item items ih =>
      rw [List.forall_mem_cons] at hitems
      cases others with
      | nil =>
          rw [intercalate_cons] at h
          exact absurd (List.append_eq_nil_iff.mp h).1 hitems.1.1
      | cons other others =>
          rw [List.forall_mem_cons] at hothers
          rw [intercalate_cons, intercalate_cons] at h
          obtain ⟨rfl, hbehind⟩ := eq_of_append_behindItem hitems.1 hothers.1 h
          cases items with
          | nil =>
              cases others with
              | nil => rfl
              | cons next others => exact absurd hbehind (by simp [behindItem])
          | cons next items =>
              cases others with
              | nil => exact absurd hbehind (by simp [behindItem])
              | cons next' others =>
                  simp only [behindItem, List.cons.injEq, true_and] at hbehind
                  rw [ih hitems.2 hothers.2 hbehind]

-- A list has no other items than those that it was made of.
theorem lists_bracketed_iff {opening closing : String} {items others : List String}
    (hitems : ∀ item ∈ items, IsItem item.toList) :
    Lists opening closing others (bracketed opening closing items) ↔ others = items := by
  constructor
  · rintro ⟨hothers, htext⟩
    have hchars := congrArg String.toList htext
    simp only [bracketed, String.toList_append, String.toList_intercalate, List.append_assoc,
      List.append_cancel_left_eq, List.append_cancel_right_eq] at hchars
    have hlists := eq_of_intercalate_eq (by simpa using hitems) (by simpa using hothers) hchars
    exact (List.map_inj_right fun _ _ => String.toList_inj.mp).mp hlists.symm
  · rintro rfl
    exact ⟨hitems, rfl⟩

end PostfixCalc.Text
