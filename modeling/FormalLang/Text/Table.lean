import FormalLang.Text.Width

/-!
# Tables in Markdown

A table is laid out with bars between the cells and a line of dashes under its
header.  Every cell has one space on each side and is filled up to the width of
its column.  A cell of several lines makes its row as high as it needs; the
other cells of the row are filled up with blank lines.
-/

namespace FormalLang.Text

/-- The lines of a cell. -/
def cellLines (cell : String) : List String :=
  cell.splitOn "\n"

/-- The width of the widest line of a cell. -/
def cellWidth (cell : String) : Nat :=
  ((cellLines cell).map lineWidth).foldl max 0

/-- A table: the cells of its header and those of its rows. -/
structure Table where
  header : List String
  rows : List (List String)

namespace Table

/-- The width of every column. -/
def widths (t : Table) : List Nat :=
  t.rows.foldl (fun ws row => List.zipWith max ws (row.map cellWidth))
    (t.header.map cellWidth)

/-- A line of a cell between its two spaces, filled up to a width. -/
def pad (width : Nat) (line : String) : String :=
  " " ++ line ++ String.ofList (List.replicate (width - lineWidth line) ' ') ++ " "

/-- The lines of a row. -/
def rowLines (widths : List Nat) (row : List String) : List String :=
  let cells := row.map cellLines
  let height := (cells.map List.length).foldl max 0
  (List.range height).map fun i =>
    "|" ++ String.join (List.zipWith (fun w cell => pad w (cell.getD i "") ++ "|") widths cells)

/-- The line between the header and the rows. -/
def ruler (widths : List Nat) : String :=
  "|" ++ String.join (widths.map fun w => String.ofList (List.replicate (w + 2) '-') ++ "|")

/-- The text of a table. -/
def text (t : Table) : String :=
  let ws := t.widths
  "\n".intercalate (rowLines ws t.header ++ ruler ws :: t.rows.flatMap (rowLines ws))

end Table
end FormalLang.Text
