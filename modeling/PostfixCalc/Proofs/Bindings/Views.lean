import Mathlib.Data.String.Basic
import PostfixCalc.Proofs.Binary64.Text
import PostfixCalc.Proofs.Text.Items
import PostfixCalc.Proofs.Untyped

namespace PostfixCalc

theorem Letter.mem_all (letter : Letter) : letter ∈ Letter.all :=
  List.mem_map.mpr ⟨letter.index, List.mem_finRange letter.index, rfl⟩

-- The alphabet is in the order of the texts that its letters are.
theorem Letter.increasing_all : (Letter.all.map Letter.name).Pairwise (· < ·) := by
  have hchars : (Letter.all.map Letter.toChar).Pairwise (· < ·) := by decide +kernel
  rw [List.pairwise_map] at hchars ⊢
  refine hchars.imp fun {first second} h => ?_
  rw [String.lt_iff_toList_lt, toList_name, toList_name]
  exact List.Lex.rel h

-- A letter needs no escape inside quotes.
theorem Letter.quoted_name (letter : Letter) : Text.quoted letter.name = "'" ++ letter.name ++ "'" := by
  obtain ⟨index⟩ := letter
  revert index
  decide +kernel

namespace Binary64

private theorem comma_ne_digit (digit : Digit) : ',' ≠ Decimal.toChar digit := by
  revert digit
  decide

theorem comma_not_mem_text (value : Binary64) : ',' ∉ value.text.toList := by
  cases value with
  | nan => decide
  | infinity negative => cases negative <;> decide
  | finite negative rank =>
      rw [text, String.toList_ofList, List.mem_append, not_or]
      refine ⟨by cases negative <;> decide, fun hc => ?_⟩
      rcases mem_magnitudeText hc with hmark | ⟨digit, hdigit⟩
      · exact absurd hmark (by decide)
      · exact comma_ne_digit digit hdigit

end Binary64

namespace Bindings

variable (bindings : Bindings)

theorem lookup_eq_elim (name : String) : bindings.lookup name =
    (bindings.find? name).elim (.error (.unassignedVariable name)) .ok := by
  unfold lookup
  cases bindings.find? name <;> rfl

theorem lookup_eq_ok_iff {name : String} {value : Binary64} :
    bindings.lookup name = .ok value ↔ bindings.find? name = some value := by
  rw [lookup_eq_elim]
  cases bindings.find? name <;> simp

theorem contains_iff (name : String) :
    bindings.contains name = true ↔ ∃ value, bindings.lookup name = .ok value := by
  simp only [contains, Option.isSome_iff_exists, lookup_eq_ok_iff]

theorem mem_names (name : String) :
    name ∈ bindings.names ↔ ∃ value, bindings.lookup name = .ok value := by
  simp only [names, List.mem_map, List.mem_filter, Letter.mem_all, true_and, lookup_eq_ok_iff, find?,
    Option.bind_eq_some_iff, Option.isSome_iff_exists, Letter.ofName?_eq_some_iff]
  constructor
  · rintro ⟨letter, ⟨value, hvalue⟩, rfl⟩
    exact ⟨value, letter, rfl, hvalue⟩
  · rintro ⟨value, letter, rfl, hvalue⟩
    exact ⟨letter, ⟨value, hvalue⟩, rfl⟩

theorem increasing_names : bindings.names.Pairwise (· < ·) := by
  have hall := Letter.increasing_all
  rw [List.pairwise_map] at hall
  rw [names, List.pairwise_map]
  exact hall.filter _

theorem mem_snapshot {name : String} {value : Binary64} :
    (name, value) ∈ bindings.snapshot ↔ bindings.lookup name = .ok value := by
  rw [lookup_eq_ok_iff, ← Untyped.lookup_snapshot]
  have hnodup := (Untyped.isLettered_snapshot bindings).nodup
  constructor
  · intro hmem
    obtain ⟨before, after, hentries⟩ := List.append_of_mem hmem
    rw [List.lookup_eq_some_iff]
    refine ⟨before, after, hentries, fun entry hentry => ?_⟩
    -- the name stands nowhere else, and so not before this entry
    rw [hentries, List.map_append, List.nodup_append] at hnodup
    have hne := hnodup.2.2 entry.1 (List.mem_map_of_mem hentry) name (by simp)
    simpa using Ne.symm hne
  · intro hlookup
    obtain ⟨before, after, hentries, -⟩ := List.lookup_eq_some_iff.mp hlookup
    simp [hentries]

-- Both have every assigned name once.
theorem perm_names : (bindings.snapshot.map Prod.fst).Perm bindings.names := by
  have hnodup : bindings.names.Nodup := bindings.increasing_names.imp ne_of_lt
  rw [List.perm_ext_iff_of_nodup (Untyped.isLettered_snapshot bindings).nodup hnodup]
  intro name
  simp [mem_names, ← mem_snapshot]

theorem size_eq_length_snapshot : bindings.size = bindings.snapshot.length := by
  simp [size, snapshot]

theorem size_eq_length_names : bindings.size = bindings.names.length := by
  rw [size_eq_length_snapshot, ← bindings.perm_names.length_eq, List.length_map]

-- An entry as it stands in the text.
def entryText (name : String) (value : Binary64) : String := "'" ++ name ++ "': " ++ value.text

theorem text_eq : bindings.text = Text.bracketed "VariableTable(\x7b" "\x7d)"
    (bindings.snapshot.map fun (name, value) => entryText name value) := by
  have hentry : ∀ entry ∈ bindings.entries,
      Text.quoted entry.1.name ++ ": " ++ entry.2.text = entryText entry.1.name entry.2 := by
    intro entry _
    have hquote : "'" ++ ": " = "': " := rfl
    rw [Letter.quoted_name, entryText, ← hquote]
    simp only [String.append_assoc]
  rw [text, snapshot, List.map_map, List.map_map]
  exact congrArg _ (List.map_congr_left hentry)

theorem isItem_entryText (letter : Letter) (value : Binary64) :
    Text.IsItem (entryText letter.name value).toList := by
  have hname : ',' ≠ letter.toChar := by
    obtain ⟨index⟩ := letter
    revert index
    decide
  constructor
  · simp [entryText]
  · simp [entryText, hname, value.comma_not_mem_text]

theorem lists_text_iff (items : List String) :
    Text.Lists "VariableTable(\x7b" "\x7d)" items bindings.text ↔
      items = bindings.snapshot.map fun (name, value) => entryText name value := by
  rw [text_eq]
  apply Text.lists_bracketed_iff
  simp only [snapshot, List.map_map, List.forall_mem_map]
  rintro ⟨letter, value⟩ -
  exact isItem_entryText letter value

end Bindings

end PostfixCalc
