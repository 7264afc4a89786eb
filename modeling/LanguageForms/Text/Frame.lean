/-
# Tables in a rounded frame

A table is a list of rows of cells.  Every cell has one blank on both sides and
is left aligned, a column is as wide as its widest line, and a line is drawn
below the first row only.  A cell may hold several lines: its row is then as
high as its highest cell, and the other cells are filled up with blanks below.
-/
import LanguageForms.Text.Collection
import LanguageForms.Text.StyledLines
import LanguageForms.Text.Width

namespace LanguageForms
namespace Text
namespace Frame

/-- The lines of a cell. -/
def cellLines (cell : String) : List (List Char) := styledLines cell.toList

/-- The greatest of some numbers, zero if there are none. -/
def greatest (l : List Nat) : Nat := l.foldl Nat.max 0

/-- The columns that a cell takes. -/
def cellWidth (cell : String) : Nat := greatest ((cellLines cell).map width)

/-- The greater of two lists of numbers, place by place. -/
def maxEach : List Nat → List Nat → List Nat
  | [], l => l
  | k, [] => k
  | m :: k, n :: l => Nat.max m n :: maxEach k l

/-- The width of every column. -/
def columnWidths (rows : List (List String)) : List Nat :=
  rows.foldl (fun widths row => maxEach widths (row.map cellWidth)) []

/-- A horizontal line with its left end, its crossings and its right end. -/
def rule (left crossing right : String) (widths : List Nat) : String :=
  left ++ separated crossing (widths.map fun n => joined (List.replicate (n + 2) "─")) ++ right

/-- One line of a cell, filled up to the width of its column. -/
def cellLine (line : List Char) (columns : Nat) : String :=
  " " ++ String.ofList line ++ String.ofList (List.replicate (columns - width line) ' ') ++ " "

/-- The `i`-th line of a row. -/
def rowLine (widths : List Nat) (cells : List (List (List Char))) (i : Nat) : String :=
  let texts := List.zipWith (fun lines columns => cellLine (lines[i]?.getD []) columns) cells widths
  "│" ++ separated "│" texts ++ "│"

/-- All lines of a row. -/
def rowLines (widths : List Nat) (row : List String) : List String :=
  let cells := row.map cellLines
  (List.range (greatest (cells.map List.length))).map (rowLine widths cells)

/-- The whole table; the first row is the header. -/
def render (rows : List (List String)) : String :=
  let widths := columnWidths rows
  let top := rule "╭" "┬" "╮" widths
  let middle := rule "├" "┼" "┤" widths
  let bottom := rule "╰" "┴" "╯" widths
  let body := match rows with
    | [] => []
    | [header] => rowLines widths header
    | header :: rest => rowLines widths header ++ middle :: rest.flatMap (rowLines widths)
  separated "\n" (top :: body ++ [bottom])

end Frame
end Text
end LanguageForms
