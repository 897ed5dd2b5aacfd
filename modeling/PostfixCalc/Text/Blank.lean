namespace PostfixCalc.Text

-- The white space of Unicode together with the four separators U+001C to U+001F. Marks without
-- width, such as U+200B and U+FEFF, are not blank.
def isBlank (c : Char) : Bool :=
  let n := c.toNat
  (9 ≤ n && n ≤ 13) || (28 ≤ n && n ≤ 32) || n == 0x85 || n == 0xA0 || n == 0x1680 ||
    (0x2000 ≤ n && n ≤ 0x200A) || n == 0x2028 || n == 0x2029 || n == 0x202F || n == 0x205F ||
    n == 0x3000

-- Puts a character in front of the first word.
def extendFirst (c : Char) : List (List Char) → List (List Char)
  | [] => [[c]]
  | word :: rest => (c :: word) :: rest

-- The maximal runs of characters that are not blank, in order.
def wordsOf : List Char → List (List Char)
  | [] => []
  | [c] => if isBlank c then [] else [[c]]
  | c :: next :: rest =>
    if isBlank c then wordsOf (next :: rest)
    else if isBlank next then [c] :: wordsOf (next :: rest)
    else extendFirst c (wordsOf (next :: rest))

def words (line : String) : List String := (wordsOf line.toList).map String.ofList

end PostfixCalc.Text
