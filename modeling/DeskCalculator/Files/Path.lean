import DeskCalculator.Text.Pieces

/-!
# Paths

A path is a root and the names that lead on from it. Empty names and single points lead nowhere, so they are
left out in the shortest way to write a path. Two points lead back, but only to be followed: the name before
them may not be that of a directory, so the shortest way keeps both.
-/

namespace DeskCalculator

/-- A path. Paths without root begin at the working directory. -/
structure Path where
  /-- The slashes at the beginning: none, one, or exactly two, which is a root of its own. -/
  root : String
  names : List String
  deriving DecidableEq, Repr

namespace Path

/-- The slashes that make the root of a path. -/
def rootOf (text : List Char) : String :=
  match text with
  | '/' :: '/' :: '/' :: _ => "/"
  | '/' :: '/' :: _ => "//"
  | '/' :: _ => "/"
  | _ => ""

/-- Everything between slashes, also what leads nowhere. -/
def steps (text : String) : List String :=
  (Text.pieces '/' text.toList).map String.ofList

/-- Whether a step leads nowhere. -/
def staysPut (name : String) : Bool :=
  name.isEmpty || name = "."

/-- The path that a text writes. -/
def ofText (text : String) : Path :=
  ⟨rootOf text.toList, (steps text).filter fun name => !staysPut name⟩

/-- The shortest way to write a path. -/
def text (p : Path) : String :=
  if p.root.isEmpty && p.names.isEmpty then "." else p.root ++ "/".intercalate p.names

/-- The path without its last name. -/
def parent (p : Path) : Path :=
  { p with names := p.names.dropLast }

/-- The place where one more step leads from a directory. Nothing is above a root. -/
def enter (p : Path) (name : String) : Path :=
  if staysPut name then p
  else if name = ".." then
    match p.names.getLast? with
    | none => if p.root.isEmpty then { p with names := [name] } else p
    | some last => if last = ".." then { p with names := p.names ++ [name] } else p.parent
  else { p with names := p.names ++ [name] }

example : (ofText "./sub/./x/out.csv").parent.text = "sub/x" := by decide +kernel

example : (ofText "///a").text = "/a" ∧ (ofText "//a").text = "//a" ∧ (ofText "./").text = "." := by
  decide +kernel

end Path

end DeskCalculator
