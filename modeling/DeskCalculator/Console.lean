import DeskCalculator.Session.Basic
import DeskCalculator.Text.Pieces

/-!
# The console

A line-based way to use a session. A line that begins with a colon is a command, `q` ends the console, and
any other line is an expression to evaluate: it is typed into an empty line and the equals key is pressed.
-/

namespace DeskCalculator.Console

/-- What a line of input asks for. -/
inductive Command where
  | quit
  | setMode (name : String)
  | showMode
  | showHistory
  | clearHistory
  | memoryClear
  | memoryRecall
  | memoryAdd
  | memorySubtract
  /-- Apply percent to the number at the end, then evaluate. -/
  | percent (line : String)
  | help
  | evaluate (line : String)
  deriving DecidableEq, Repr

/-- The command that a line gives, without the blank space around it. -/
def Command.ofLine (line : String) : Command :=
  let line := Text.trimmed line
  if line = "q" ∨ line = "Q" then quit
  else if line = ":deg" then setMode "deg"
  else if line = ":rad" then setMode "rad"
  else if line = ":mode" then showMode
  else if line = ":history" then showHistory
  else if line = ":clear" then clearHistory
  else if line = ":mc" then memoryClear
  else if line = ":mr" then memoryRecall
  else if line = ":m+" then memoryAdd
  else if line = ":m-" then memorySubtract
  else match line.toList with
    | ':' :: '%' :: rest => percent (String.ofList (Text.strip rest))
    | ':' :: _ => help
    | _ => evaluate line

/-- The list of commands. -/
def helpText : String :=
  "Commands:
  <expression>   evaluate, e.g. 3+4*sin(90)
  :deg / :rad    switch angle mode
  :mode          show angle mode
  :history       list history
  :mc :mr :m+ :m-  memory register
  :% <expr>      apply percent to the trailing number, then evaluate
  :clear         clear history
  q              quit"

/-- The name of a mode in capitals. -/
def modeText : AngleMode → String
  | .degrees => "DEG"
  | .radians => "RAD"

/-- One line for each entry of the history. -/
def historyText (h : History) : String :=
  if h.entries.isEmpty then "(empty)"
  else "\n".intercalate (h.entries.map fun entry => s!"{entry.equation} = {entry.result}")

/-- The content of the memory register. -/
def memoryText (value : Float) : String :=
  s!"M = {Layout.report.text value}"

/-- Presses the equals key and reports the new line or the kind of error. -/
def equals (s : Settings) (session : Session) (e : Evaluator) : Session.Reply String :=
  match session.equals s e with
  | (.ok (.ok _), session, e) => (.ok s!"= {session.line}", session, e)
  | (.ok (.error error), session, e) => (.ok s!"Error: {error.kind.name}", session, e)
  | (.error fault, session, e) => (.error fault, session, e)

/-- The text of an answer that shows the line, the memory or the mode. -/
def answerText : Session.Answer → String
  | .line text | .display text => text
  | .memory value => memoryText value
  | .mode mode => modeText mode
  | .outcome _ | .done => ""

/-- Carries out an action of the session and shows its answer. -/
def perform (s : Settings) (session : Session) (e : Evaluator) (action : Session.Action) :
    Session.Reply String :=
  match session.act s e action with
  | (.ok answer, session, e) => (.ok (answerText answer), session, e)
  | (.error fault, session, e) => (.error fault, session, e)

/-- What a command prints, or nothing if it ends the console. -/
def execute (s : Settings) (session : Session) (e : Evaluator) :
    Command → Session.Reply (Option String)
  | .quit => (.ok none, session, e)
  | .setMode name => shown (perform s session e (.setMode (.name name)))
  | .showMode => (.ok (some (modeText session.mode)), session, e)
  | .showHistory => (.ok (some (historyText session.history)), session, e)
  | .clearHistory =>
    (.ok (some "(history cleared)"), { session with history := session.history.clear }, e)
  | .memoryClear => (.ok (some "M = 0"), { session with memory := 0 }, e)
  | .memoryRecall => shown (perform s session e .memoryRecall)
  | .memoryAdd => shown (perform s session e .memoryAdd)
  | .memorySubtract => shown (perform s session e .memorySubtract)
  | .percent line => shown (equals s { session with line := Percent.apply line } e)
  | .help => (.ok (some helpText), session, e)
  | .evaluate line => shown (equals s { session with line } e)
where
  /-- A reply that prints its text. -/
  shown : Session.Reply String → Session.Reply (Option String)
    | (.ok text, session, e) => (.ok (some text), session, e)
    | (.error fault, session, e) => (.error fault, session, e)

/-- What a line of input prints, or nothing if it ends the console. -/
def handle (s : Settings) (session : Session) (e : Evaluator) (line : String) :
    Session.Reply (Option String) :=
  execute s session e (.ofLine line)

/-! ## Running the console -/

/-- The first line of output. -/
def greeting (session : Session) : String :=
  s!"[{modeText session.mode}] type ':help' for commands, 'q' to quit\n"

/-- What asks for a line. -/
def prompt : String := "> "

/-- What is printed in answer to lines of input until the console ends, and the fault that ended it, if
one did. Every line, and the end of input, is preceded by the prompt; blank lines are passed over. -/
def transcript (s : Settings) (session : Session) (e : Evaluator) :
    List String → String × Option Fault
  | [] => (prompt, none)
  | line :: lines =>
    if Text.allBlank line then
      let (text, fault) := transcript s session e lines
      (prompt ++ text, fault)
    else
      match handle s session e line with
      | (.ok none, _, _) => (prompt, none)
      | (.ok (some output), session, e) =>
        let (text, fault) := transcript s session e lines
        (prompt ++ output ++ "\n" ++ text, fault)
      | (.error fault, _, _) => (prompt, some fault)

/-- The lines of an input text; what follows the last line feed is a line unless it is empty. -/
def inputLines (text : String) : List String :=
  let pieces := (Text.pieces '\n' text.toList).map String.ofList
  if pieces.getLast? = some "" then pieces.dropLast else pieces

/-- A whole console session: everything that is printed, and the fault that ended it, if one did. -/
def run (s : Settings) (session : Session) (e : Evaluator) (input : String) :
    String × Option Fault :=
  let (text, fault) := transcript s session e (inputLines input)
  (greeting session ++ text, fault)

end DeskCalculator.Console
