import DeskCalculator.Batch
import DeskCalculator.CommandLine.Arguments
import DeskCalculator.Console
import DeskCalculator.Files.Packed
import DeskCalculator.Files.Tree

/-!
# The command line

A run evaluates one expression, or a table, or opens a console, in this order of preference. It is told
what it finds around it, and what it writes is part of its result. The exit code is zero for success, one if an
expression has no value, and two for arguments that are not accepted.
-/

namespace DeskCalculator.CommandLine

/-- What a run finds: the files and directories around it and the text on its input. -/
structure Surroundings where
  tree : FileTree
  input : String

/-! ## Results -/

/-- Why a run breaks off. -/
inductive Failure where
  | level (error : LevelError)
  | unsound (flaw : Settings.Flaw)
  /-- A path cannot be opened. -/
  | obstacle (obstacle : Obstacle) (path : String)
  | packed (failure : Packing.Failure)
  | load (error : Batch.LoadError)
  | stop (stop : Batch.Stop)
  /-- The output is to be written into a directory that does not exist. -/
  | noDirectory (path : String)
  deriving DecidableEq

/-- The wording of a failure. -/
def Failure.message : Failure → String
  | level error => error.message
  | unsound flaw => flaw.message
  | obstacle o path => o.message path
  | packed failure => failure.message
  | load error => error.message
  | stop s => s.message
  | noDirectory path => s!"Cannot save file into a non-existent directory: '{path}'"

/-- How a run ends. -/
inductive End where
  | code (code : Nat)
  /-- The arguments decide the exit code and nothing is run. -/
  | refused (code : Nat)
  | failure (failure : Failure)
  deriving DecidableEq

/-- A file that is written. Packed or not, it is told by the text that reading it gives back. -/
structure WrittenFile where
  /-- The shortest way to write its path. -/
  place : String
  text : String
  packing : Option Packing
  deriving DecidableEq

/-- What a run leaves behind. -/
structure Result where
  ending : End
  stdout : String
  files : List WrittenFile
  deriving DecidableEq

namespace Result

/-- A run that prints and writes nothing and breaks off. -/
def failed (failure : Failure) : Result := ⟨.failure failure, "", []⟩

/-- The files that hold their texts as they are, by their places. -/
def written (r : Result) : List (String × String) :=
  (r.files.filter (·.packing.isNone)).map fun file => (file.place, file.text)

end Result

/-! ## Plans -/

/-- What the arguments ask for, once they are accepted. -/
inductive Plan where
  | single (mode : AngleMode.Choice) (expression : String)
  | batch (request : Batch.Request) (input output : String)
  | console (mode : AngleMode.Choice)

/-- The plan of accepted options. A batch path that is empty counts as none. -/
def Options.plan (s : Settings) (o : Options) : Plan :=
  match o.expression, o.batchPath.filter (!·.isEmpty) with
  | some expression, _ => .single o.mode expression
  | none, some path =>
    .batch { expressionColumn := o.expressionColumn, modeColumn := "", mode := some o.mode } path
      (Batch.orDefault o.outputPath s.outputPath)
  | none, none => .console o.mode

/-- The plan of a command line. Arguments, log level and settings are checked in this order before
anything is evaluated. -/
def plan (s : Settings) (args : List String) : Except End Plan :=
  match (Options.standard s).read args with
  | .error .badUsage => .error (.refused 2)
  | .error .helpRequested => .error (.refused 0)
  | .ok o =>
    match levelError? (levelName s o.logLevel) with
    | some error => .error (.failure (.level error))
    | none =>
      match s.flaw? with
      | some flaw => .error (.failure (.unsound flaw))
      | none => .ok (o.plan s)

/-! ## Runs -/

/-- What one expression prints, with the exit code. -/
def runSingle (s : Settings) (mode : AngleMode.Choice) (expression : String) : Result :=
  match Evaluator.create s none (some mode) with
  | .error fault => .failed (.stop (.fault fault))
  | .ok e =>
    match (e.evaluate s.arithmetic none (some expression)).1 with
    | .error fault => .failed (.stop (.fault fault))
    | .ok (.error error) => ⟨.code 1, s!"Error: {error.kind.name}\n", []⟩
    | .ok (.ok value) =>
      match s.display.text value with
      | .error fault => .failed (.stop (.fault fault))
      | .ok text => ⟨.code 0, text ++ "\n", []⟩

/-- The text of the file at a path, unpacked if the path says so. What cannot be read at all is not even
opened. -/
def readText (t : FileTree) (path : String) : Except Failure String :=
  let packing := Packing.ofPath? path
  if packing = some .zstandard then .error (.packed .unsupported)
  else match t.read path, packing with
    | .error obstacle, _ => .error (.obstacle obstacle path)
    | .ok content, none => .ok content
    | .ok content, some packing =>
      match packing.unpack content.toUTF8.toList with
      | .ok text => .ok text
      | .error failure => .error (.packed failure)

/-- The place of the file to be written at a path. Its directory has to be there. -/
def outputPlace (t : FileTree) (path : String) : Except Failure Path :=
  let directory := (Path.ofText path).parent.text
  match t.find directory with
  | .error .nameTooLong => .error (.obstacle .nameTooLong directory)
  | .ok .directory =>
    if Packing.ofPath? path = some .zstandard then .error (.packed .unsupported)
    else match t.target path with
      | .ok place => .ok place
      | .error obstacle => .error (.obstacle obstacle path)
  | _ => .error (.noDirectory directory)

/-- Evaluates the table in a file and writes the results to another one, packed if its path says so. -/
def runBatch (s : Settings) (request : Batch.Request) (input output : String) (t : FileTree) : Result :=
  match readText t input with
  | .error failure => .failed failure
  | .ok content =>
    match Batch.load s request content with
    | .error e => .failed (.load e)
    | .ok table =>
      match Batch.evaluate s request table with
      | .error e => .failed (.stop e)
      | .ok report =>
        match outputPlace t output with
        | .error failure => .failed failure
        | .ok place =>
          ⟨.code (if report.succeeded then 0 else 1), "",
            [⟨place.text, report.table.write, Packing.ofPath? output⟩]⟩

/-- A new session for the console, with its evaluator. -/
def consoleSession (s : Settings) (mode : AngleMode.Choice) : Except Fault (Session × Evaluator) := do
  let e ← Evaluator.create s none none
  let session ← Session.create s e (some mode) none []
  return (session, e)

/-- A console on the input text. -/
def runConsole (s : Settings) (mode : AngleMode.Choice) (input : String) : Result :=
  match consoleSession s mode with
  | .error fault => .failed (.stop (.fault fault))
  | .ok (session, e) =>
    match Console.run s session e input with
    | (output, none) => ⟨.code 0, output, []⟩
    | (output, some fault) => ⟨.failure (.stop (.fault fault)), output, []⟩

/-- Carries out a plan. -/
def Plan.run (s : Settings) (around : Surroundings) : Plan → Result
  | .single mode expression => runSingle s mode expression
  | .batch request input output => runBatch s request input output around.tree
  | .console mode => runConsole s mode around.input

/-- What a command line does. -/
def run (s : Settings) (args : List String) (around : Surroundings) : Result :=
  match plan s args with
  | .error ending => ⟨ending, "", []⟩
  | .ok p => p.run s around

end DeskCalculator.CommandLine
