import DeskCalculator.Evaluator
import DeskCalculator.Table.Reader
import DeskCalculator.Table.Writer

/-!
# Batches

A batch evaluates the expressions in one column of a table, row by row, and adds three columns: the
value, what the display shows, and the kind of error. A row may choose its own angle mode in another
column. All rows share one evaluator, so repeated expressions are compiled once.
-/

namespace DeskCalculator.Batch

/-- What a batch is asked to do; an empty column name means the one of the settings. -/
structure Request where
  expressionColumn : String
  modeColumn : String
  /-- The mode of the rows that do not choose one. -/
  mode : Option AngleMode.Choice

/-- A name, or the one of the settings in place of an empty one. -/
def orDefault (name standard : String) : String :=
  if name.isEmpty then standard else name

/-- The column of expressions. -/
def Request.expressions (r : Request) (s : Settings) : String :=
  orDefault r.expressionColumn s.expressionColumn

/-- The column of angle modes. -/
def Request.modes (r : Request) (s : Settings) : String :=
  orDefault r.modeColumn s.modeColumn

/-- Why a table cannot be used. -/
inductive LoadError where
  | unreadable (error : Table.ReadError)
  | missingColumn (name : String)
  deriving DecidableEq, Repr

/-- The wording of a loading error. -/
def LoadError.message : LoadError → String
  | unreadable error => error.message
  | missingColumn name => s!"Expression column '{name}' not found in file."

/-- Reads a table and checks that it has the column of expressions. -/
def load (s : Settings) (r : Request) (text : String) : Except LoadError Table :=
  match Table.read text with
  | .error e => .error (.unreadable e)
  | .ok table =>
    if table.columns.contains (r.expressions s) then .ok table
    else .error (.missingColumn (r.expressions s))

/-- Why a batch stops. -/
inductive Stop where
  | fault (fault : Fault)
  /-- A row is to be evaluated and the table has no column of expressions. -/
  | absentColumn (name : String)
  deriving DecidableEq

/-- The wording of a stop. -/
def Stop.message : Stop → String
  | .fault f => f.message
  | .absentColumn name => Text.quoted name

/-- What one row adds to the table. -/
structure RowResult where
  value : Float
  display : String
  /-- The kind of error; empty for a value. -/
  error : String

/-- What an outcome adds to the table. -/
def RowResult.ofOutcome (s : Settings) (outcome : Outcome) : Except Fault RowResult :=
  match s.display.outcomeText outcome with
  | .error fault => .error fault
  | .ok display =>
    match outcome with
    | .ok value => .ok ⟨value, display, ""⟩
    | .error e => .ok ⟨Binary64.undefined, display, e.kind.name⟩

/-- The mode that a row asks for: its own if it has a text there that is not blank. -/
def rowMode (r : Request) (cell : Cell) : Option AngleMode.Choice :=
  match cell with
  | .text name => if Text.allBlank name then r.mode else some (.name name)
  | _ => r.mode

/-- Evaluates one row; the places say where its expression and its mode stand. -/
def evaluateRow (s : Settings) (r : Request) (expressionPlace modePlace : Option Nat)
    (e : Evaluator) (row : List Cell) : Except Stop RowResult × Evaluator :=
  let mode := rowMode r ((modePlace.map (Table.cellAt row)).getD .missing)
  match expressionPlace with
  | none => (.error (.absentColumn (r.expressions s)), e)
  | some place =>
    match e.evaluate s.arithmetic mode (Table.cellAt row place).text? with
    | (.error fault, e) => (.error (.fault fault), e)
    | (.ok outcome, e) =>
      match RowResult.ofOutcome s outcome with
      | .error fault => (.error (.fault fault), e)
      | .ok result => (.ok result, e)

/-- Evaluates rows from the top, up to the first one that stops the batch. -/
def evaluateRows (s : Settings) (r : Request) (expressionPlace modePlace : Option Nat)
    (e : Evaluator) : List (List Cell) → Except Stop (List RowResult) × Evaluator
  | [] => (.ok [], e)
  | row :: rows =>
    match evaluateRow s r expressionPlace modePlace e row with
    | (.error stop, e) => (.error stop, e)
    | (.ok result, e) =>
      match evaluateRows s r expressionPlace modePlace e rows with
      | (.error stop, e) => (.error stop, e)
      | (.ok results, e) => (.ok (result :: results), e)

/-- A batch after evaluation. -/
structure Report where
  table : Table
  results : List RowResult

/-- The table with the three columns of results. -/
def addResults (table : Table) (results : List RowResult) : Table :=
  ((table.setColumn "value" (results.map fun r => .number r.value)).setColumn
    "display" (results.map fun r => .text r.display)).setColumn
    "error" (results.map fun r => .text r.error)

/-- Evaluates a table with the given evaluator. -/
def evaluateWith (s : Settings) (r : Request) (e : Evaluator) (table : Table) :
    Except Stop Report × Evaluator :=
  match evaluateRows s r (table.place? (r.expressions s)) (table.place? (r.modes s)) e
      table.rows with
  | (.error stop, e) => (.error stop, e)
  | (.ok results, e) => (.ok ⟨addResults table results, results⟩, e)

/-- Evaluates a table with a new evaluator in the mode of the request. -/
def evaluate (s : Settings) (r : Request) (table : Table) : Except Stop Report :=
  match Evaluator.create s none r.mode with
  | .error fault => .error (.fault fault)
  | .ok e => (evaluateWith s r e table).1

/-- Whether every row has a value. -/
def Report.succeeded (report : Report) : Bool :=
  report.results.all fun r => r.error.isEmpty

end DeskCalculator.Batch
