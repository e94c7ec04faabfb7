import ChunkStore.Text.Split
import ChunkStore.Text.Width

/-!
# Grids

Tables drawn with `+`, `-` and `|`: a rule above and below every row, one blank on
both sides of a cell, texts at the left. A cell that holds line breaks takes several
lines, and a column is as wide as the widest line in it.
-/

namespace ChunkStore.Text.Grid

/-- The lines of a cell. -/
abbrev Cell := List (List Char)

def cell (text : String) : Cell := split '\n' text.toList

def cellWidth (c : Cell) : Nat := (c.map width).foldl max 0

def columnWidths : List (List Cell) → List Nat
  | [] => []
  | [row] => row.map cellWidth
  | row :: rows => List.zipWith max (row.map cellWidth) (columnWidths rows)

def rule (widths : List Nat) : List Char :=
  '+' :: widths.flatMap fun w => List.replicate (w + 2) '-' ++ ['+']

def framed (w : Nat) (line : List Char) : List Char :=
  ' ' :: line ++ List.replicate (w - width line) ' ' ++ [' ', '|']

def rowLines (widths : List Nat) (row : List Cell) : List (List Char) :=
  let height := (row.map List.length).foldl max 1
  (List.range height).map fun i =>
    '|' :: (List.zipWith (fun w (texts : Cell) => framed w (texts[i]?.getD [])) widths row).flatten

/-- The lines of a table, of which the first row names the columns. -/
def lines (rows : List (List String)) : List String :=
  let cells := rows.map fun row => row.map cell
  let widths := columnWidths cells
  (rule widths :: cells.flatMap fun row => rowLines widths row ++ [rule widths]).map
    String.ofList

end ChunkStore.Text.Grid
