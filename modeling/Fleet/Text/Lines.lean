/-
Lines and fields of text.
-/

namespace Fleet.Text

/-- the parts before each line feed, and what is left after the last one -/
def splitLines (line : List Char) : List Char → List (List Char) × List Char
  | [] => ([], line.reverse)
  | c :: rest =>
    if c = '\n' then
      let (lines, last) := splitLines [] rest
      (line.reverse :: lines, last)
    else splitLines (c :: line) rest

/-- a line without the carriage return at its end -/
def dropReturn (line : List Char) : List Char :=
  if line.getLast? = some '\r' then line.dropLast else line

/-- the lines of a text, without their ends (LF or CR LF); a last line may lack its end -/
def lines (s : String) : List (List Char) :=
  let (full, last) := splitLines [] s.toList
  full.map dropReturn ++ (if last.isEmpty then [] else [last])

/-- the text before the first separator, and the text behind it -/
def cut? (sep : Char) : List Char → Option (List Char × List Char)
  | [] => none
  | c :: rest =>
    if c = sep then some ([], rest)
    else match cut? sep rest with
      | some (a, b) => some (c :: a, b)
      | none => none

/-- a text occurs inside another -/
def occursIn (part : List Char) : List Char → Bool
  | [] => part.isEmpty
  | c :: rest => part.isPrefixOf (c :: rest) || occursIn part rest

def contains (s part : String) : Bool := occursIn part.toList s.toList

/-- texts with another between them -/
def join (sep : String) : List String → String
  | [] => ""
  | [s] => s
  | s :: t :: rest => s ++ sep ++ join sep (t :: rest)

end Fleet.Text
