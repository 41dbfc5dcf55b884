import DeskCalculator.Files.Path
import DeskCalculator.Text.Quoted

/-!
# Files and directories

What a run finds around it, and what happens when it opens a path. A path is followed name by name; each
name but the last has to be that of a directory. What is not known to be there is not there.

Two limits apply: a name has at most `longestName` bytes, and a path at most `longestPath`.
-/

namespace DeskCalculator

/-- What stands at a place. -/
inductive FileTree.Entry where
  | file (content : String)
  | directory
  deriving DecidableEq, Repr

/-- Files with their contents, and directories, under the shortest way to write their paths. The working
directory and all above it are there without being listed. -/
structure FileTree where
  files : List (String × String)
  directories : List String
  deriving Repr

/-- Why a path cannot be opened. -/
inductive Obstacle where
  | missing
  /-- A name leads on from something that is no directory. -/
  | notDirectory
  | isDirectory
  | nameTooLong
  | nullCharacter
  deriving DecidableEq, Repr

/-- The wording of an obstacle on a path. -/
def Obstacle.message (path : String) : Obstacle → String
  | missing => s!"[Errno 2] No such file or directory: {Text.quoted path}"
  | notDirectory => s!"[Errno 20] Not a directory: {Text.quoted path}"
  | isDirectory => s!"[Errno 21] Is a directory: {Text.quoted path}"
  | nameTooLong => s!"[Errno 36] File name too long: {Text.quoted path}"
  | nullCharacter => "embedded null byte"

namespace FileTree

/-- The most bytes of a name. -/
def longestName : Nat := 255

/-- The most bytes of a path. -/
def longestPath : Nat := 4095

/-- What stands at a place whose directory is there. -/
def entry? (t : FileTree) (place : Path) : Option Entry :=
  if place.names.all (· = "..") then some .directory
  else match t.files.lookup place.text with
    | some content => some (.file content)
    | none => if t.directories.contains place.text then some .directory else none

/-- Where steps lead from a place. Every step but the last has to lead to a directory. -/
def follow (t : FileTree) (place : Path) : List String → Except Obstacle Path
  | [] => .ok place
  | name :: rest =>
    match t.entry? place with
    | none => .error .missing
    | some (.file _) => .error .notDirectory
    | some .directory =>
      if longestName < name.utf8ByteSize then .error .nameTooLong
      else follow t (place.enter name) rest

/-- The obstacle in a path that is found without following it. -/
def unusable? (path : String) : Option Obstacle :=
  if path.toList.contains '\x00' then some .nullCharacter
  else if longestPath < path.utf8ByteSize then some .nameTooLong
  else none

/-- The place where a path begins. -/
def origin (path : String) : Path :=
  ⟨Path.rootOf path.toList, []⟩

/-- What stands at the end of a path. -/
def find (t : FileTree) (path : String) : Except Obstacle Entry :=
  match unusable? path with
  | some obstacle => .error obstacle
  | none =>
    match t.follow (origin path) (Path.steps path) with
    | .error obstacle => .error obstacle
    | .ok place =>
      match t.entry? place with
      | some entry => .ok entry
      | none => .error .missing

/-- The content of the file at a path. -/
def read (t : FileTree) (path : String) : Except Obstacle String :=
  match t.find path with
  | .ok (.file content) => .ok content
  | .ok .directory => .error .isDirectory
  | .error obstacle => .error obstacle

/-- Whether a path can only be that of a directory: it ends in a slash after a name, in a directory that
is there. -/
def isDirectoryOnly (t : FileTree) (folder : Path) (path last : String) : Bool :=
  path.endsWith "/" && last != "." && last != ".." && t.entry? folder = some .directory

/-- The place of the file to be written at a path, whether it is there already or not. -/
def target (t : FileTree) (path : String) : Except Obstacle Path :=
  match unusable? path with
  | some obstacle => .error obstacle
  | none =>
    let steps := (Path.steps path).filter (!·.isEmpty)
    match steps.getLast? with
    | none => .error .isDirectory
    | some last =>
      match t.follow (origin path) steps.dropLast with
      | .error obstacle => .error obstacle
      | .ok folder =>
        if t.isDirectoryOnly folder path last then .error .isDirectory
        else match t.follow folder [last] with
          | .error obstacle => .error obstacle
          | .ok place => if t.entry? place = some .directory then .error .isDirectory else .ok place

end FileTree

end DeskCalculator
