import DeskCalculator.CommandLine.Run

/-!
# The program

Collects what a run needs from its surroundings, carries the run out and delivers its result. A console
is served line by line, so that each answer appears before the next line is read.
-/

namespace DeskCalculator.CommandLine

/-- Writes the files and the output of a run and gives its exit code; a failure goes to the error
stream. Packing a file is left to other programs, so one that has to be packed is refused. -/
def deliver (r : Result) : IO UInt32 := do
  if let some file := r.files.find? (·.packing.isSome) then
    IO.eprintln s!"{file.place} would have to be packed"
    return 1
  for (path, content) in r.written do
    IO.FS.writeFile path content
  IO.print r.stdout
  match r.ending with
  | .code n | .refused n => return n.toUInt32
  | .failure failure =>
    IO.eprintln failure.message
    return 1

/-- What stands at a place, if it can be read. -/
def entryAt (place : Path) : IO (Option FileTree.Entry) := do
  try
    if ← (← IO.FS.realPath place.text).isDir then return some .directory
    return some (.file (← IO.FS.readFile place.text))
  catch _ =>
    return none

/-- A tree with what stands at a place added. -/
def look (t : FileTree) (place : Path) : IO FileTree := do
  match ← entryAt place with
  | some (.file content) => return { t with files := (place.text, content) :: t.files }
  | some .directory => return { t with directories := place.text :: t.directories }
  | none => return t

/-- The part of the tree that following the given paths can meet. -/
def treeAlong (paths : List String) : IO FileTree := do
  let mut tree : FileTree := ⟨[], []⟩
  for path in paths do
    let mut place := FileTree.origin path
    for step in Path.steps path do
      place := place.enter step
      tree ← look tree place
  return tree

/-- Serves a console until it ends. -/
partial def converse (s : Settings) (session : Session) (e : Evaluator) : IO UInt32 := do
  IO.print Console.prompt
  (← IO.getStdout).flush
  let line ← (← IO.getStdin).getLine
  if line.isEmpty then return 0
  if Text.allBlank line then converse s session e
  else
    match Console.handle s session e line with
    | (.ok (some output), session, e) =>
      IO.println output
      converse s session e
    | (.ok none, _, _) => return 0
    | (.error fault, _, _) =>
      IO.eprintln fault.message
      return 1

/-- Carries out a plan in the surroundings of the process. -/
def carryOut (s : Settings) (plan : Plan) : IO UInt32 := do
  match plan with
  | .single _ _ => deliver (plan.run s ⟨⟨[], []⟩, ""⟩)
  | .batch _ input output => deliver (plan.run s ⟨← treeAlong [input, output], ""⟩)
  | .console mode =>
    match consoleSession s mode with
    | .ok (session, e) =>
      IO.print (Console.greeting session)
      converse s session e
    | .error fault =>
      IO.eprintln fault.message
      return 1

end DeskCalculator.CommandLine

open DeskCalculator.CommandLine in
def main (args : List String) : IO UInt32 := do
  match plan .standard args with
  | .ok plan => carryOut .standard plan
  | .error ending => deliver ⟨ending, "", []⟩
