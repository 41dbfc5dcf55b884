import DeskCalculator.Settings
import DeskCalculator.Text.Capitals
import DeskCalculator.Text.Digit

/-!
# Command-line arguments

Every option but the one for help takes one value, in the next argument or after an equals sign. An option may
be shortened as long as no other one begins the same way, and of repeated options the last one counts. A value
in an argument of its own may begin with a minus only if it is a negative number, is a lone minus, or has a
space in it and is not the beginning of an option. A value of two minuses after an equals sign takes the place
of the value without being one.

Arguments that are neither options nor their values are surplus, and so is everything from an argument of two
minuses on. Surplus is refused in the end, unless help is asked for before; an option that could be several
ones is refused before anything else.
-/

namespace DeskCalculator.CommandLine

/-- The options. -/
inductive Flag where
  | help
  | expression
  | angleMode
  | batchPath
  | expressionColumn
  | outputPath
  | logLevel
  deriving DecidableEq, Repr

namespace Flag

/-- All options. -/
def all : List Flag :=
  [help, expression, angleMode, batchPath, expressionColumn, outputPath, logLevel]

/-- The full name of an option. -/
def name : Flag → String
  | help => "--help"
  | expression => "--expression"
  | angleMode => "--angle_mode"
  | batchPath => "--batch_path"
  | expressionColumn => "--expression_column"
  | outputPath => "--output_path"
  | logLevel => "--log_level"

end Flag

/-- What an argument is. -/
inductive Argument where
  /-- An option, with the value that follows in the same argument. -/
  | flag (flag : Flag) (value : Option String)
  | value
  /-- The beginning of several options. -/
  | ambiguous
  /-- An option that there is not. -/
  | unknown
  deriving DecidableEq, Repr

/-- What makes all arguments from here on surplus. -/
def terminator : String := "--"

/-- A minus and digits of any script, with or without a fraction; one line feed may follow. -/
def isNegativeNumber (s : List Char) : Bool :=
  match s with
  | '-' :: rest =>
    let body := if rest.getLast? = some '\n' then rest.dropLast else rest
    match body.dropWhile Text.isDigit with
    | [] => !body.isEmpty
    | '.' :: fraction => !fraction.isEmpty && fraction.all Text.isDigit
    | _ => false
  | _ => false

/-- The part before the first equals sign, and the part after it if there is one. -/
def splitEquals (arg : String) : String × Option String :=
  let chars := arg.toList
  let name := chars.takeWhile (· ≠ '=')
  match chars.drop name.length with
  | _ :: value => (String.ofList name, some (String.ofList value))
  | [] => (arg, none)

/-- The options that a word with two minuses begins. -/
def beginning (word : String) : List Flag :=
  if word.startsWith "--" then Flag.all.filter fun flag => flag.name.startsWith word else []

/-- The short option for help, with what follows it in the same argument: the letter may be repeated, also
after an equals sign, and everything else is a value. -/
def shortHelp (rest : List Char) : Argument :=
  let letters := match rest with
    | '=' :: letters => letters
    | letters => letters
  if rest = [] ∨ (letters ≠ [] ∧ letters.all (· = 'h')) then .flag .help none
  else .flag .help (some (String.ofList letters))

/-- What a word with two minuses is that is no full name of an option. -/
def abbreviation (arg : String) : Argument :=
  let (word, value) := splitEquals arg
  match beginning word with
  | [flag] => .flag flag value
  | _ :: _ :: _ => .ambiguous
  | [] => if isNegativeNumber arg.toList || arg.toList.contains ' ' then .value else .unknown

/-- What an argument is, taken by itself. -/
def classify (arg : String) : Argument :=
  if !arg.startsWith "-" || arg = "-" then .value
  else match arg.toList with
    | '-' :: 'h' :: rest => shortHelp rest
    | _ =>
      let (word, value) := splitEquals arg
      match Flag.all.find? (·.name = word) with
      | some flag => .flag flag value
      | none => abbreviation arg

/-- What the command line asks for. -/
structure Options where
  expression : Option String
  mode : AngleMode.Choice
  batchPath : Option String
  expressionColumn : String
  outputPath : String
  logLevel : String

/-- The options when none is given. -/
def Options.standard (s : Settings) : Options where
  expression := none
  mode := s.defaultMode
  batchPath := none
  expressionColumn := s.expressionColumn
  outputPath := s.outputPath
  logLevel := s.logLevel

/-- Why the arguments ask for nothing. -/
inductive Refusal where
  | badUsage
  | helpRequested
  deriving DecidableEq, Repr

/-- The options with one more set. -/
def Options.set (o : Options) (flag : Flag) (value : String) : Except Refusal Options :=
  match flag with
  | .help => .error .badUsage
  | .expression => .ok { o with expression := some value }
  | .angleMode =>
    if value = "deg" ∨ value = "rad" then .ok { o with mode := .name value } else .error .badUsage
  | .batchPath => .ok { o with batchPath := some value }
  | .expressionColumn => .ok { o with expressionColumn := value }
  | .outputPath => .ok { o with outputPath := value }
  | .logLevel => .ok { o with logLevel := value }

/-- How messages show the absence of a value. -/
def nothingShown : String := "[]"

/-- The options with one more set to no value. That counts as an empty text, but is no angle mode. -/
def Options.setNothing (o : Options) (flag : Flag) : Except Refusal Options :=
  if flag = .angleMode then .ok { o with mode := .other nothingShown } else o.set flag ""

/-- The options with one more set in the argument that names it. -/
def Options.setWithin (o : Options) (flag : Flag) (value : String) : Except Refusal Options :=
  if value = terminator then o.setNothing flag else o.set flag value

/-- The options that arguments set, on top of the given ones; `surplus` says whether there has been
something surplus. -/
def Options.readFrom (o : Options) (surplus : Bool) : List String → Except Refusal Options
  | [] => if surplus then .error .badUsage else .ok o
  | arg :: rest =>
    if arg = terminator then .error .badUsage
    else match classify arg with
      | .flag .help none => .error .helpRequested
      | .flag flag (some value) =>
        match o.setWithin flag value with
        | .ok o => o.readFrom surplus rest
        | .error refusal => .error refusal
      | .flag flag none =>
        match rest with
        | value :: rest =>
          if classify value = .value then
            match o.set flag value with
            | .ok o => o.readFrom surplus rest
            | .error refusal => .error refusal
          else .error .badUsage
        | [] => .error .badUsage
      | .ambiguous => .error .badUsage
      | .value | .unknown => o.readFrom true rest

/-- The options that arguments set, on top of the given ones. -/
def Options.read (o : Options) (args : List String) : Except Refusal Options :=
  if (args.takeWhile (· ≠ terminator)).any (classify · = .ambiguous) then .error .badUsage
  else o.readFrom false args

/-! ## Log levels -/

/-- The names of the log levels. -/
def logLevels : List String :=
  ["CRITICAL", "FATAL", "ERROR", "WARNING", "WARN", "INFO", "DEBUG", "NOTSET"]

/-- Why a name gives no log level. -/
inductive LevelError where
  | unknown (name : String)
  /-- The name stands for a text, which is no level. -/
  | text (content : String)
  /-- The name stands for something else, known by how messages show it. -/
  | other (shown : String)
  deriving DecidableEq, Repr

/-- The wording of a level error. -/
def LevelError.message : LevelError → String
  | unknown name => s!"module 'logging' has no attribute '{name}'"
  | text content => s!"Unknown level: {Text.quoted content}"
  | other shown => s!"Level not an integer or a valid string: {shown}"

/-- The layouts of log lines, by the character that marks a field in them. -/
def lineLayouts : List (String × String × String) :=
  [("%", "PercentStyle", "%(levelname)s:%(name)s:%(message)s"),
    ("\x7b", "StrFormatStyle", "\x7blevelname\x7d:\x7bname\x7d:\x7bmessage\x7d"),
    ("$", "StringTemplateStyle", "$\x7blevelname\x7d:$\x7bname\x7d:$\x7bmessage\x7d")]

/-- How messages show the layouts of log lines. -/
def lineLayoutsShown : String :=
  let shown := lineLayouts.map fun (mark, style, layout) =>
    s!"{Text.quoted mark}: (<class 'logging.{style}'>, {Text.quoted layout})"
  "\x7b" ++ ", ".intercalate shown ++ "\x7d"

/-- The level that is asked for, in capitals; an empty name means the level of the settings. -/
def levelName (s : Settings) (level : String) : String :=
  Text.capitals (if level.isEmpty then s.logLevel else level)

/-- Why the name of a level in capitals gives none, if so. Two names are known that stand for the layout
of a log line and for all of them. -/
def levelError? (name : String) : Option LevelError :=
  if logLevels.contains name then none
  else if name = "BASIC_FORMAT" then
    some (.text "%(levelname)s:%(name)s:%(message)s")
  else if name = "_STYLES" then some (.other lineLayoutsShown)
  else some (.unknown name)

end DeskCalculator.CommandLine
