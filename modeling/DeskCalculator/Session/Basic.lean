import DeskCalculator.Evaluator
import DeskCalculator.History
import DeskCalculator.Session.Percent

/-!
# Sessions

A session is what one user has in front of them: the line being typed, a memory register, an angle mode
and the history of results. The evaluator is not part of it, because several sessions may use the same
one; every action takes the evaluator as it stands and gives it back.

`Session.act` is the meaning of the keys. A refused action leaves the session as it was:
`session_of_act_eq_error`.
-/

namespace DeskCalculator

/-- The state of a session. -/
structure Session where
  /-- The line being typed. -/
  line : String
  memory : Float
  mode : AngleMode
  history : History
  /-- The random numbers still to come. -/
  draws : List Float

namespace Session

/-- A new session at an evaluator; what is not given comes from the evaluator and the settings. -/
def create (s : Settings) (e : Evaluator) (mode : Option AngleMode.Choice)
    (historyLimit : Option Int) (draws : List Float) : Except Fault Session := do
  let mode ← e.modeFor mode
  let history ← History.create (historyLimit.getD s.historyLimit)
  return { line := "", memory := 0, mode, history, draws }

/-- What can be done in a session. -/
inductive Action where
  | input (text : String)
  /-- Type a function name and an opening parenthesis. -/
  | function (name : String)
  | clear
  /-- Take back the last character. -/
  | delete
  | constant (name : String)
  | percent
  /-- Replace the line by a result of the history. -/
  | recall (position : Int)
  | memoryRecall
  | memoryClear
  | memoryAdd
  | memorySubtract
  | toggleMode
  | setMode (choice : AngleMode.Choice)
  | evaluate
  | equals
  | display
  | clearHistory
  deriving DecidableEq

/-- What an action answers. -/
inductive Answer where
  | line (text : String)
  | outcome (outcome : Outcome)
  | display (text : String)
  | memory (value : Float)
  | mode (mode : AngleMode)
  | done

/-- An answer or a fault, with the session and the evaluator afterwards. -/
abbrev Reply (α : Type) := Except Fault α × Session × Evaluator

/-- The value of `pi`. -/
def pi : Float := Float.ofBits 0x400921FB54442D18

/-- The base of natural logarithms. -/
def euler : Float := Float.ofBits 0x4005BF0A8B145769

/-- The text of a constant, and the random numbers left after it. -/
def constantText (draws : List Float) : String → Except Fault (String × List Float)
  | "pi" => .ok (Layout.report.text pi, draws)
  | "e" => .ok (Layout.report.text euler, draws)
  | "rand" => .ok (Layout.plain.text (draws.headD 0), draws.tail)
  | name => .error (.unknownConstant name)

/-- The session with another line, and that line as answer. -/
def withLine (session : Session) (e : Evaluator) (line : String) : Reply Answer :=
  (.ok (.line line), { session with line }, e)

/-- What the display shows: zero for NaN, and a word for a line without value. -/
def displayText (s : Settings) : Outcome → Except Fault String
  | .ok x => if x.isNaN then .ok "0" else s.display.text x
  | .error _ => .ok Display.errorText

/-- The number on the display; whatever is not a number counts as zero. -/
def displayValue (s : Settings) (outcome : Outcome) : Float :=
  match displayText s outcome with
  | .ok text =>
    let value := (Numeral.float? text).getD 0
    if value.isNaN then 0 else value
  | .error _ => 0

/-- Adds the number on the display to the memory, or takes it away. -/
def addToMemory (s : Settings) (combine : Float → Float → Float) (session : Session)
    (e : Evaluator) : Reply Answer :=
  match e.evaluateIn s.arithmetic session.mode (some session.line) with
  | (.ok outcome, e) =>
    let memory := combine session.memory (displayValue s outcome)
    (.ok (.memory memory), { session with memory }, e)
  | (.error fault, e) => (.error fault, session, e)

/-- Evaluates the line. A value is written to the history, unless the line is blank, and replaces the
line; a line without value stays. -/
def equals (s : Settings) (session : Session) (e : Evaluator) : Reply Outcome :=
  match e.evaluateIn s.arithmetic session.mode (some session.line) with
  | (.error fault, e) => (.error fault, session, e)
  | (.ok (.error error), e) => (.ok (.error error), session, e)
  | (.ok (.ok value), e) =>
    match s.display.text value with
    | .error fault => (.error fault, session, e)
    | .ok result =>
      let history :=
        if Text.allBlank session.line then session.history
        else session.history.push ⟨session.line, result⟩
      (.ok (.ok value), { session with line := result, history }, e)

/-- The meaning of an action. -/
def act (s : Settings) (session : Session) (e : Evaluator) : Action → Reply Answer
  | .input text => session.withLine e (session.line ++ text)
  | .function name => session.withLine e (session.line ++ name ++ "(")
  | .clear => session.withLine e ""
  | .delete => session.withLine e (String.ofList session.line.toList.dropLast)
  | .constant name =>
    match constantText session.draws name with
    | .ok (text, draws) => { session with draws }.withLine e (session.line ++ text)
    | .error fault => (.error fault, session, e)
  | .percent => session.withLine e (Percent.apply session.line)
  | .recall position =>
    match session.history.entryAt position with
    | .ok entry => session.withLine e entry.result
    | .error fault => (.error fault, session, e)
  | .memoryRecall => session.withLine e (session.line ++ Layout.plain.text session.memory)
  | .memoryClear => (.ok .done, { session with memory := 0 }, e)
  | .memoryAdd => addToMemory s (· + ·) session e
  | .memorySubtract => addToMemory s (· - ·) session e
  | .toggleMode =>
    let mode := session.mode.toggled
    (.ok (.mode mode), { session with mode }, e)
  | .setMode choice =>
    match choice.mode with
    | .ok mode => (.ok (.mode mode), { session with mode }, e)
    | .error fault => (.error fault, session, e)
  | .evaluate =>
    match e.evaluateIn s.arithmetic session.mode (some session.line) with
    | (.ok outcome, e) => (.ok (.outcome outcome), session, e)
    | (.error fault, e) => (.error fault, session, e)
  | .equals =>
    match session.equals s e with
    | (.ok outcome, session, e) => (.ok (.outcome outcome), session, e)
    | (.error fault, session, e) => (.error fault, session, e)
  | .display =>
    match e.evaluateIn s.arithmetic session.mode (some session.line) with
    | (.ok outcome, e) => ((displayText s outcome).map .display, session, e)
    | (.error fault, e) => (.error fault, session, e)
  | .clearHistory => (.ok .done, { session with history := session.history.clear }, e)

/-- A refused action leaves the session as it was. -/
theorem session_of_act_eq_error {s : Settings} {session after : Session} {e e' : Evaluator}
    {action : Action} {fault : Fault} (h : session.act s e action = (.error fault, after, e')) :
    after = session := by
  cases action <;> simp only [act, withLine, addToMemory, equals] at h <;> grind

end Session

end DeskCalculator
