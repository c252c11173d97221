/-
Rows of text in columns, and rules.
-/
import Fleet.Text.Blank
import Fleet.Text.Lines

namespace Fleet.Table

/-- a line of this many double strokes -/
def rule (width : Nat) : String := String.ofList (List.replicate width '═')

/-- a cell filled up with spaces to a number of characters -/
def pad (cell : String) (width : Nat) : String :=
  cell ++ String.ofList (List.replicate (width - cell.length) ' ')

/-- the cells that have a width, two spaces apart, without blanks at the end -/
def row (cells : List String) (widths : List Nat) : String :=
  let padded := (cells.zip widths).map fun c => pad c.1 c.2
  String.ofList (Text.trimEnd (Text.join "  " padded).toList)

/-- the width of a column: the octets of its longest cell -/
def columnWidth (cells : List String) : Nat := cells.foldl (fun w c => max w c.utf8ByteSize) 0

/-- an indented row of a name in its column and a remark -/
def entryLine (width : Nat) (name remark : String) : String := "    " ++ row [name, remark] [width, 0]

/-- indented rows of names and remarks, the names in one column -/
def entryLines (entries : List (String × String)) : List String :=
  let width := columnWidth (entries.map Prod.fst)
  entries.map fun e => entryLine width e.1 e.2

end Fleet.Table
