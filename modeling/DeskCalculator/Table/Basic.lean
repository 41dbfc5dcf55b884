/-!
# Tables

A table has named columns and rows of cells in the order of the columns. Cells beyond the width of a row
are missing.
-/

namespace DeskCalculator

/-- The content of a cell. -/
inductive Cell where
  | text (text : String)
  | missing
  | number (value : Float)
  deriving DecidableEq

/-- The text of a cell, if it holds text. -/
def Cell.text? : Cell → Option String
  | text s => some s
  | _ => none

/-- A table with named columns. -/
structure Table where
  columns : List String
  rows : List (List Cell)
  deriving DecidableEq

namespace Table

/-- The place of a column. -/
def place? (t : Table) (column : String) : Option Nat :=
  t.columns.findIdx? (· = column)

/-- The cell of a row at a place. -/
def cellAt (row : List Cell) (place : Nat) : Cell :=
  (row[place]?).getD .missing

/-- The cells of a column, from the top. -/
def column? (t : Table) (column : String) : Option (List Cell) :=
  (t.place? column).map fun place => t.rows.map (cellAt · place)

/-- The table with the given cells in a column. A column that the table has is replaced where it stands;
a new one comes last. -/
def setColumn (t : Table) (column : String) (cells : List Cell) : Table :=
  match t.place? column with
  | some place => { t with rows := t.rows.zipWith (fun row cell => row.set place cell) cells }
  | none =>
    { columns := t.columns ++ [column]
      rows := t.rows.zipWith (fun row cell => row ++ [cell]) cells }

end Table

end DeskCalculator
