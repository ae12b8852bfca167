import SymbolIndex.Text.Chars
import SymbolIndex.Text.Width

/-!
# Grids

A grid is a table of texts drawn with rules and rounded corners. Every column is as
wide as its widest line, and a cell of several lines makes its row that many lines
high. A grid without rows has no closing rule.
-/

namespace SymbolIndex

structure Grid where
  header : List String
  rows : List (List String)
deriving DecidableEq, Repr

namespace Grid

def cellLines (cell : String) : List String := (Text.splitLines cell.toList).map String.ofList

def largest (ns : List Nat) : Nat := ns.foldl max 0

def cellWidth (cell : String) : Nat := largest ((cellLines cell).map Text.width)

/-- The width of each column. -/
def columnWidths (g : Grid) : List Nat :=
  g.rows.foldl (fun widths row => List.zipWith max widths (row.map cellWidth)) (g.header.map cellWidth)

/-- A line with blanks after it up to a width. -/
def padded (width : Nat) (line : String) : String :=
  line ++ String.ofList (List.replicate (width - Text.width line) ' ')

/-- A rule with a blank's room on both sides of every column. -/
def rule (left middle right : String) (widths : List Nat) : String :=
  left ++ String.intercalate middle
    (widths.map fun width => String.ofList (List.replicate (width + 2) '─')) ++ right

/-- One line of a row, given the line of each cell. -/
def rowLine (widths : List Nat) (cells : List String) : String :=
  "│ " ++ String.intercalate " │ " (List.zipWith padded widths cells) ++ " │"

/-- The lines of a row; cells with fewer lines than others are filled up with empty ones. -/
def rowLines (widths : List Nat) (row : List String) : List String :=
  let cells := row.map cellLines
  let height := largest (cells.map List.length)
  (List.range height).map fun i => rowLine widths (cells.map fun lines => lines[i]?.getD "")

def lines (g : Grid) : List String :=
  let widths := g.columnWidths
  rule "╭" "┬" "╮" widths :: rowLines widths g.header ++ rule "├" "┼" "┤" widths
    :: g.rows.flatMap (rowLines widths)
    ++ (if g.rows.isEmpty then [] else [rule "╰" "┴" "╯" widths])

def render (g : Grid) : String := String.intercalate "\n" g.lines

end Grid
end SymbolIndex
