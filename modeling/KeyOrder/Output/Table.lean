import KeyOrder.Text.Width

/-!
# Tables

A table drawn with box characters. A column is as wide as its widest line, with a space on each
side, and every cell is aligned to the left. A cell of several lines makes its row that many lines
high.
-/

namespace KeyOrder

/-- Rows of cells below a row of column titles. -/
structure Table where
  header : List String
  rows : List (List String)
deriving DecidableEq, Repr

namespace Table

/-- The lines of a cell. -/
def cellLines (cell : String) : List String := cell.splitOn "\n"

/-- Columns of a terminal that a line takes. -/
def lineWidth (line : String) : Nat := Text.width line.toList

/-- Columns of a terminal that a cell takes. -/
def cellWidth (cell : String) : Nat :=
  (cellLines cell).foldl (fun widest line => max widest (lineWidth line)) 0

/-- The widths of columns, given those of some rows and one row more. -/
def widen : List Nat → List String → List Nat
  | widths, [] => widths
  | [], cell :: cells => cellWidth cell :: widen [] cells
  | width :: widths, cell :: cells => max width (cellWidth cell) :: widen widths cells

/-- The widths of the columns. -/
def widths (table : Table) : List Nat := (table.header :: table.rows).foldl widen []

/-- A character repeated. -/
def repeated (count : Nat) (c : Char) : String := String.ofList (List.replicate count c)

/-- A line across the table. -/
def rule (left fill cross right : Char) (widths : List Nat) : String :=
  left.toString ++
    String.intercalate cross.toString (widths.map fun width => repeated (width + 2) fill) ++
    right.toString

/-- A line of a cell with the spaces around it. -/
def padded (width : Nat) (line : String) : String :=
  " " ++ line ++ repeated (width - lineWidth line) ' ' ++ " "

/-- The lines of a row. -/
def rowLines (widths : List Nat) (cells : List String) : List String :=
  let split := cells.map cellLines
  let height := split.foldl (fun highest lines => max highest lines.length) 1
  (List.range height).map fun i =>
    let pieces := (widths.zip split).map fun (width, lines) => padded width (lines.getD i "")
    "│" ++ String.intercalate "┆" pieces ++ "│"

/-- The lines of the table. -/
def lines (table : Table) : List String :=
  let widths := table.widths
  let body := (table.rows.map (rowLines widths)).intersperse [rule '├' '╌' '┼' '┤' widths]
  [rule '┌' '─' '┬' '┐' widths] ++ rowLines widths table.header ++
    [rule '╞' '═' '╪' '╡' widths] ++ body.flatten ++ [rule '└' '─' '┴' '┘' widths]

/-- The table as text. -/
def render (table : Table) : String := String.intercalate "\n" table.lines

end Table

end KeyOrder
