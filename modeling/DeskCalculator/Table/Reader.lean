import DeskCalculator.Table.Basic

/-!
# Reading comma-separated values

Lines end with a line feed, a carriage return, or both. Cells stand between commas. A cell that begins
with a double quote extends to the next single one, whatever stands in between, and two double quotes in
it are one; text after the closing quote is added to the cell as it is. A cell ends for good at its first
null character. Lines that are empty or hold only spaces and tabs are passed over, and so is a byte order
mark at the very beginning, and a comma right after a carriage return that ended a line passed over.

Passing over is not final. When a line begins with spaces or tabs and something else follows, everything
since the last line feed, or since the last carriage return that ended a record, is read again, this time as
the beginning of a cell: then the lines passed over are records after all. The number of a line counts every
end of line that was met, so those that were read again count twice.

The first line names the columns. The first line of data may be longer: what it has in excess is cut from
the left of every row. From then on a longer line is an error, and a shorter one is filled up with empty
cells.
-/

namespace DeskCalculator.Table

/-! ## From characters to records -/

/-- The cells of a line, with the number of the line where it ends. -/
structure Record where
  fields : List String
  line : Nat
  deriving DecidableEq, Repr

/-- Where the reader stands; text already read of a cell is given backwards. -/
inductive Place where
  | lineStart
  /-- Nothing but spaces and tabs in this line so far. -/
  | padding
  | fieldStart
  | plain (read : List Char)
  | quoted (read : List Char)
  /-- Right after a double quote in a quoted cell. -/
  | afterQuote (read : List Char)
  /-- Right after a carriage return that ended a record. -/
  | afterReturn
  /-- Right after a carriage return that ended a line without record. -/
  | afterBlankReturn
  deriving DecidableEq, Repr

/-- What the reader knows between two characters. -/
structure Scan where
  place : Place
  /-- The cells of the current line, backwards. -/
  fields : List String
  /-- How many ends of lines have been met. -/
  line : Nat
  /-- The records so far, backwards. -/
  records : List Record
  /-- The characters that were passed over and may have to be read again, backwards. -/
  passed : List Char
  deriving DecidableEq, Repr

/-- The text of a cell, which ends at its first null character. -/
def fieldText (read : List Char) : String :=
  String.ofList (read.reverse.takeWhile (· ≠ '\x00'))

namespace Scan

/-- The reader before the first character. -/
def start : Scan := ⟨.lineStart, [], 0, [], []⟩

/-- Ends a cell. -/
def endField (s : Scan) (read : List Char) (next : Place) : Scan :=
  { s with place := next, fields := fieldText read :: s.fields }

/-- Ends a line that is a record. -/
def endRecord (s : Scan) : Scan :=
  ⟨.lineStart, [], s.line + 1, ⟨s.fields.reverse, s.line + 1⟩ :: s.records, []⟩

/-- Passes over a character. -/
def pass (s : Scan) (c : Char) (next : Place) : Scan :=
  { s with place := next, passed := c :: s.passed }

/-- Ends a line that is none with a line feed, before which nothing is ever read again. -/
def skipLine (s : Scan) : Scan :=
  { s with place := .lineStart, line := s.line + 1, passed := [] }

/-- Ends a line that is none with a carriage return. -/
def skipReturn (s : Scan) : Scan :=
  { s.pass '\r' .afterBlankReturn with line := s.line + 1 }

/-- A character outside quotes, after the given part of the cell. -/
def stepPlain (s : Scan) (read : List Char) (c : Char) : Scan :=
  if c = ',' then s.endField read .fieldStart
  else if c = '\n' then (s.endField read .lineStart).endRecord
  else if c = '\r' then s.endField read .afterReturn
  else { s with place := .plain (c :: read) }

/-- A character at the start of a cell. -/
def stepField (s : Scan) (c : Char) : Scan :=
  if c = '"' then { s with place := .quoted [] } else s.stepPlain [] c

/-- A space or a tab. -/
def isPadding (c : Char) : Bool :=
  c = ' ' || c = '\t'

/-- A character at the start of a line. -/
def stepLine (s : Scan) (c : Char) : Scan :=
  if c = '\n' then s.skipLine
  else if c = '\r' then s.skipReturn
  else if isPadding c then s.pass c .padding
  else s.stepField c

/-- One character, where `reread` says how characters are read from the start of a cell. -/
def stepWith (reread : Scan → List Char → Scan) (s : Scan) (c : Char) : Scan :=
  match s.place with
  | .lineStart => s.stepLine c
  | .padding =>
    if c = '\n' then s.skipLine
    else if c = '\r' then s.skipReturn
    else if isPadding c then s.pass c .padding
    else reread { s with place := .fieldStart, passed := [] } (s.passed.reverse ++ [c])
  | .fieldStart => s.stepField c
  | .plain read => s.stepPlain read c
  | .quoted read =>
    if c = '"' then { s with place := .afterQuote read }
    else { s with place := .quoted (c :: read) }
  | .afterQuote read =>
    if c = '"' then { s with place := .quoted (c :: read) } else s.stepPlain read c
  | .afterReturn =>
    if c = '\n' then s.endRecord
    else if c = ',' then s.endRecord.endField [] .fieldStart
    else s.endRecord.stepLine c
  | .afterBlankReturn =>
    if c = '\n' then { s with place := .lineStart, passed := [] }
    else if c = ',' then s.pass c .lineStart
    else s.stepLine c

/-- Reads characters. What is read again may in turn hold something to be read again, but less each
time, so a `depth` of the number of characters is enough. -/
def readWith : Nat → Scan → List Char → Scan
  | 0, s, _ => s
  | depth + 1, s, chars => chars.foldl (stepWith (readWith depth)) s

/-- One character. -/
def step (s : Scan) (c : Char) : Scan :=
  s.stepWith (fun s chars => readWith chars.length s chars) c

/-- Whether the text ends inside a quoted cell. -/
def isOpen (s : Scan) : Bool :=
  match s.place with
  | .quoted _ => true
  | _ => false

/-- The records, when the text ends here. -/
def finish (s : Scan) : List Record :=
  let last := match s.place with
    | .lineStart | .padding | .afterBlankReturn | .quoted _ => s
    | .fieldStart => (s.endField [] .lineStart).endRecord
    | .plain read | .afterQuote read => (s.endField read .lineStart).endRecord
    | .afterReturn => s.endRecord
  last.records.reverse

end Scan

/-- Drops a byte order mark at the beginning. -/
def withoutMark : List Char → List Char
  | c :: rest => if c = '\uFEFF' then rest else c :: rest
  | [] => []

/-! ## From records to a table -/

/-- Why a text is no table. -/
inductive ReadError where
  /-- There is no line to name the columns. -/
  | noColumns
  | tooManyCells (expected line saw : Nat)
  /-- A quoted cell does not end; `row` lines ended before. -/
  | unclosedQuote (row : Nat)
  deriving DecidableEq, Repr

/-- The wording of a reading error. -/
def ReadError.message : ReadError → String
  | noColumns => "No columns to parse from file"
  | tooManyCells expected line saw =>
    s!"Error tokenizing data. C error: Expected {expected} fields in line {line}, saw {saw}\n"
  | unclosedQuote row => s!"Error tokenizing data. C error: EOF inside string starting at row {row}"

/-- The first of `name.1`, `name.2`, … that is not among the names. -/
def freshName (names : List String) (name : String) : String :=
  let candidates := (List.range (names.length + 1)).map fun k => s!"{name}.{k + 1}"
  (candidates.find? fun candidate => !names.contains candidate).getD name

/-- Gives a fresh name to each place whose name an earlier place of the list has settled on. -/
def settleNames (names settled : List String) : List Nat → List String
  | [] => names
  | place :: places =>
    let name := (names[place]?).getD ""
    let name := if settled.contains name then freshName names name else name
    settleNames (names.set place name) (name :: settled) places

/-- The column names for a header line. A column without a name is named by its place; of equal names the
first one stays, and columns with a name of their own go before those named by place. -/
def columnNames (header : List String) : List String :=
  let names := header.mapIdx fun place name => if name.isEmpty then s!"Unnamed: {place}" else name
  let isNamed (place : Nat) : Bool := !((header[place]?).getD "").isEmpty
  let places := List.range header.length
  settleNames names [] (places.filter isNamed ++ places.filter fun place => !isNamed place)

/-- The rows of the given width; the first record that is longer is an error. -/
def rowsOf (width : Nat) : List Record → Except ReadError (List (List Cell))
  | [] => .ok []
  | record :: records =>
    if width < record.fields.length then
      .error (.tooManyCells width record.line record.fields.length)
    else
      match rowsOf width records with
      | .ok rows =>
        let padding := List.replicate (width - record.fields.length) (.text "")
        .ok ((record.fields.map .text ++ padding) :: rows)
      | .error e => .error e

/-- The table that a text holds. -/
def read (text : String) : Except ReadError Table :=
  let scan := (withoutMark text.toList).foldl Scan.step Scan.start
  match scan.finish with
  | [] => .error (if scan.isOpen then .unclosedQuote scan.line else .noColumns)
  | header :: data =>
    let width := max header.fields.length ((data.head?.map (·.fields.length)).getD 0)
    match rowsOf width data with
    | .error e => .error e
    | .ok rows =>
      if scan.isOpen then .error (.unclosedQuote scan.line)
      else .ok
        { columns := columnNames header.fields
          rows := rows.map (·.drop (width - header.fields.length)) }

example : (read "a,b\n1,\"x,\"\"y\"\n\n2\n").toOption =
    some ⟨["a", "b"], [[.text "1", .text "x,\"y"], [.text "2", .text ""]]⟩ := by
  decide +kernel

example : (read "a\n\r 1\n").toOption = some ⟨["a"], [[.text ""], [.text " 1"]]⟩ := by
  decide +kernel

example : (read "a,a,,a.1\n").toOption = some ⟨["a", "a.2", "Unnamed: 2", "a.1"], []⟩ := by
  decide +kernel

end DeskCalculator.Table
