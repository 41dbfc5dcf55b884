import DeskCalculator.Decimal.Layout
import DeskCalculator.Table.Basic

/-!
# Writing comma-separated values

Lines end with a line feed. A cell is put between double quotes, and its double quotes are doubled, only
if it holds a comma, a double quote or a line feed; a carriage return alone does not count. Numbers are
written with the fewest digits that read back; NaN and missing cells are empty. A line that is one empty cell
is written as two double quotes, since an empty line would be passed over in reading.
-/

namespace DeskCalculator.Table

/-- Whether a cell with this character has to be quoted. -/
def needsQuotes (c : Char) : Bool :=
  c = ',' || c = '"' || c = '\n'

/-- The text with every double quote written twice. -/
def doubleQuotes (s : List Char) : List Char :=
  s.flatMap fun c => if c = '"' then ['"', '"'] else [c]

/-- The written form of a text. -/
def writeField (s : List Char) : List Char :=
  if s.any needsQuotes then '"' :: doubleQuotes s ++ ['"'] else s

/-- The text of a cell before quoting. -/
def cellText : Cell → List Char
  | .text s => s.toList
  | .missing => []
  | .number x => if x.isNaN then [] else (Layout.report.text x).toList

/-- A line of cells. -/
def writeLine (fields : List (List Char)) : List Char :=
  if fields = [[]] then ['"', '"', '\n']
  else List.intercalate [','] (fields.map writeField) ++ ['\n']

/-- The written form of a table. -/
def write (t : Table) : String :=
  let header := writeLine (t.columns.map String.toList)
  String.ofList (header ++ t.rows.flatMap fun row => writeLine (row.map cellText))

example : write ⟨["a", "b"], [[.text "1", .text "x,\"y"], [.missing, .number 0.5]]⟩ =
    "a,b\n1,\"x,\"\"y\"\n,0.5\n" := by
  decide +kernel

end DeskCalculator.Table
