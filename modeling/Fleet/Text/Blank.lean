/-
Blank characters, and the words and trimmed parts of a text that they separate.

A character is blank when it has the Unicode property White_Space.
-/

namespace Fleet.Text

/-- the characters with the property White_Space -/
def isBlank (c : Char) : Bool :=
  let n := c.toNat
  (9 ≤ n && n ≤ 13) || n == 0x20 || n == 0x85 || n == 0xA0 || n == 0x1680 ||
  (0x2000 ≤ n && n ≤ 0x200A) || n == 0x2028 || n == 0x2029 || n == 0x202F || n == 0x205F ||
  n == 0x3000

/-- the text without the blanks at its start -/
def trimStart (cs : List Char) : List Char := cs.dropWhile isBlank

/-- the text without the blanks at its end -/
def trimEnd (cs : List Char) : List Char := (cs.reverse.dropWhile isBlank).reverse

/-- the text without the blanks at both ends -/
def trim (s : String) : String := String.ofList (trimEnd (trimStart s.toList))

/-- nothing but blanks, or nothing at all -/
def isAllBlank (s : String) : Bool := s.toList.all isBlank

/-- the words of a text: `word` is the word being read, in reverse -/
def wordsFrom (word : List Char) : List Char → List (List Char)
  | [] => if word.isEmpty then [] else [word.reverse]
  | c :: rest =>
    if isBlank c then
      if word.isEmpty then wordsFrom [] rest else word.reverse :: wordsFrom [] rest
    else wordsFrom (c :: word) rest

/-- the maximal runs of characters that are not blank, in order -/
def words (s : String) : List String := (wordsFrom [] s.toList).map String.ofList

end Fleet.Text
