import PostfixCalc.Text.Blank

namespace PostfixCalc.Text

-- A text without the blanks at its two ends.
def trim (text : List Char) : List Char :=
  ((text.dropWhile isBlank).reverse.dropWhile isBlank).reverse

-- The pieces between the runs of blanks, however long these are. A run at an end of the text has an
-- empty piece beyond it.
def cutAtGaps (text : List Char) : List (List Char) :=
  let piece := text.takeWhile (!isBlank ·)
  match _h : text.dropWhile (!isBlank ·) with
  | [] => [piece]
  | _ :: rest => piece :: cutAtGaps (rest.dropWhile isBlank)
termination_by text.length
decreasing_by
  have hrest := (List.dropWhile_sublist isBlank (l := rest)).length_le
  have htext := (List.dropWhile_sublist (!isBlank ·) (l := text)).length_le
  rw [_h, List.length_cons] at htext
  omega

-- The words of a line in two steps: its ends are trimmed, and what is left is cut. A line of nothing
-- but blanks is not cut.
def trimmedWords (line : String) : List String :=
  if trim line.toList = [] then [] else (cutAtGaps (trim line.toList)).map String.ofList

end PostfixCalc.Text
