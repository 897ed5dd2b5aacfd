namespace PostfixCalc.Text

-- Cuts a text after every line feed. Each line keeps its line feed; the last may have none.
def linesOf : List Char → List (List Char)
  | [] => []
  | c :: rest =>
    if c = '\n' then [c] :: linesOf rest
    else
      match linesOf rest with
      | [] => [[c]]
      | line :: more => (c :: line) :: more

def lines (text : String) : List String := (linesOf text.toList).map String.ofList

-- Turns every line ending, CR LF or a lone CR, into a line feed.
def unifyLineEndsOf : List Char → List Char
  | [] => []
  | '\r' :: '\n' :: rest => '\n' :: unifyLineEndsOf rest
  | c :: rest => (if c = '\r' then '\n' else c) :: unifyLineEndsOf rest

def unifyLineEnds (text : String) : String := String.ofList (unifyLineEndsOf text.toList)

end PostfixCalc.Text
