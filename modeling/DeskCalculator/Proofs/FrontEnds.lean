import DeskCalculator.CommandLine.Run
import DeskCalculator.Proofs.BatchRows
import DeskCalculator.Proofs.Trimming

/-!
# Three ways to ask

An expression can be given to the console, to the command line, or to a batch in the row of a table. The
console takes the blank space off the line and goes through the line of a session with a past, the command
line uses a new evaluator, and a batch one that other rows have used. The user learns the same each time: a
`Verdict`, which is the text of the value or the kind of the failure (`frontEnds_agree`).
-/

namespace DeskCalculator

/-! ## Sessions in use -/

/-- The sessions that come of creating one at an evaluator in use and of going on with both, through actions,
lines of input, requests to the evaluator and other sessions at it. Sound settings have a cache of positive
size; that of the evaluator may be of any size that is not negative. -/
inductive Session.Reached (s : Settings) : Session → Evaluator → Prop where
  | create {mode : Option AngleMode.Choice} {historyLimit : Option Int} {draws : List Float}
      {e : Evaluator} {session : Session} (hevaluator : e.Reached s) (hcapacity : 0 ≤ e.cache.capacity)
      (hsession : Session.create s e mode historyLimit draws = .ok session) : Reached s session e
  | act {e : Evaluator} {session : Session} (action : Session.Action) (h : Reached s session e) :
      Reached s (session.act s e action).2.1 (session.act s e action).2.2
  | handle {e : Evaluator} {session : Session} (line : String) (h : Reached s session e) :
      Reached s (Console.handle s session e line).2.1 (Console.handle s session e line).2.2
  | serve {e : Evaluator} {session : Session} (request : Evaluator.Request) (h : Reached s session e) :
      Reached s session (e.serve s.arithmetic request).2
  | other {e : Evaluator} {session : Session} (other : Session) (action : Session.Action)
      (h : Reached s session e) : Reached s session (other.act s e action).2.2

variable {s : Settings} {session : Session} {e : Evaluator} {line : String}

/-- With sound settings the evaluator of a session that was reached is coherent. -/
theorem Session.Reached.coherent (h : Session.Reached s session e) (hsound : s.flaw? = none) :
    e.Coherent := by
  induction h with
  | create hevaluator hcapacity _ => exact hevaluator.coherent hcapacity
  | @act e session action _ ih => exact ih.act s session action
  | @handle e session line _ ih => exact (Console.handle_of_coherent ih hsound session line).2
  | serve request _ ih => exact ih.serve s.arithmetic request
  | other other action _ ih => exact ih.act s other action

/-- The session that the command line opens for its console is one of them. -/
theorem CommandLine.reached_consoleSession {mode : AngleMode.Choice} (hsound : s.flaw? = none)
    (h : consoleSession s mode = .ok (session, e)) : Session.Reached s session e := by
  unfold consoleSession at h
  cases hevaluator : Evaluator.create s none none with
  | error fault => simp [hevaluator, bind, Except.bind] at h
  | ok e' =>
    cases hsession : Session.create s e' (some mode) none [] with
    | error fault => simp [hevaluator, hsession, bind, Except.bind] at h
    | ok session' =>
      simp only [hevaluator, hsession, bind, Except.bind, pure, Except.pure, Except.ok.injEq,
        Prod.mk.injEq] at h
      obtain ⟨rfl, rfl⟩ := h
      have hcoherent := Evaluator.coherent_of_create hevaluator (Settings.evaluator_of_sound hsound).1
      exact .create (.create hevaluator) hcoherent.capacity_nonneg hsession

/-! ## Verdicts -/

/-- What a user learns of an expression: the text of its value, or the kind of its failure. -/
inductive Verdict where
  | shown (text : String)
  | failed (kind : EvalError.Kind)
  deriving DecidableEq, Repr

namespace Verdict

/-- The verdict on an outcome. -/
def Of (s : Settings) : Verdict → Outcome → Prop
  | shown text, .ok value => s.display.text value = .ok text
  | failed kind, .error error => error.kind = kind
  | _, _ => False

/-- What the console prints. -/
def onConsole : Verdict → String
  | shown text => "= " ++ text
  | failed kind => "Error: " ++ kind.name

/-- What the command line prints, with its exit code. -/
def onCommandLine : Verdict → CommandLine.Result
  | shown text => ⟨.code 0, text ++ "\n", []⟩
  | failed kind => ⟨.code 1, "Error: " ++ kind.name ++ "\n", []⟩

/-- What stands in the row of a batch. -/
def InRow (x : Batch.RowResult) : Verdict → Prop
  | shown text => x.display = text ∧ x.error = ""
  | failed kind => x.value = Binary64.undefined ∧ x.display = "Error" ∧ x.error = kind.name

variable {v : Verdict} {outcome : Outcome}

/-- With sound settings there is a verdict on every outcome. -/
theorem exists_of_sound (hsound : s.flaw? = none) (outcome : Outcome) : ∃ v : Verdict, v.Of s outcome := by
  cases outcome with
  | error error => exact ⟨.failed error.kind, rfl⟩
  | ok value =>
    obtain ⟨text, htext⟩ := Display.exists_text (Settings.digits_of_sound hsound).1.le value
    exact ⟨.shown text, htext⟩

/-- There are two kinds of verdicts. -/
theorem Of.cases (h : v.Of s outcome) :
    (∃ value text, outcome = .ok value ∧ s.display.text value = .ok text ∧ v = .shown text) ∨
      ∃ error, outcome = .error error ∧ v = .failed error.kind := by
  cases outcome with
  | ok value =>
    cases v with
    | shown text => exact .inl ⟨value, text, rfl, h, rfl⟩
    | failed kind => exact h.elim
  | error error =>
    cases v with
    | shown text => exact h.elim
    | failed kind => exact .inr ⟨error, rfl, congrArg failed (Eq.symm h)⟩

/-- A row that presents an outcome holds the verdict on it. -/
theorem Of.inRow (h : v.Of s outcome) {x : Batch.RowResult} (hx : x.Presents s outcome) : v.InRow x := by
  obtain ⟨value, text, rfl, htext, rfl⟩ | ⟨error, rfl, rfl⟩ := h.cases
  · obtain ⟨-, hdisplay, herror⟩ := hx
    exact ⟨Except.ok.inj (hdisplay.symm.trans htext), herror⟩
  · exact hx

end Verdict

/-! ## The console -/

namespace Console

/-- A line that is neither a command nor the letter that ends the console. -/
def IsExpression (line : String) : Prop :=
  Text.trimmed line ≠ "q" ∧ Text.trimmed line ≠ "Q" ∧ (Text.trimmed line).toList.head? ≠ some ':'

/-- A line that is an expression is evaluated, without the blanks around it. -/
theorem ofLine_of_isExpression (h : IsExpression line) :
    Command.ofLine line = .evaluate (Text.trimmed line) := by
  obtain ⟨hq, hQ, hcolon⟩ := h
  have hne : ∀ name : String, name.toList.head? = some ':' → Text.trimmed line ≠ name := by
    rintro name hname rfl
    exact hcolon hname
  unfold Command.ofLine
  simp only
  rw [if_neg (not_or.2 ⟨hq, hQ⟩), if_neg (hne _ rfl), if_neg (hne _ rfl), if_neg (hne _ rfl),
    if_neg (hne _ rfl), if_neg (hne _ rfl), if_neg (hne _ rfl), if_neg (hne _ rfl), if_neg (hne _ rfl),
    if_neg (hne _ rfl)]
  split
  next heq => exact absurd (congrArg List.head? heq) hcolon
  next heq => exact absurd (congrArg List.head? heq) hcolon
  · rfl

/-- In every session the console prints the verdict on an expression. -/
theorem handle_eq (h : e.Coherent) (hline : IsExpression line) {v : Verdict}
    (hv : v.Of s (Expression.evaluate s.arithmetic session.mode line)) :
    (handle s session e line).1 = .ok (some v.onConsole) := by
  obtain ⟨next, hrun⟩ := h.exists_evaluateIn_eq s.arithmetic session.mode (some (Text.trimmed line))
  rw [Option.getD_some, Expression.evaluate_trimmed] at hrun
  rw [handle, ofLine_of_isExpression hline, execute, shown_eq, equals]
  obtain ⟨value, text, houtcome, htext, rfl⟩ | ⟨error, houtcome, rfl⟩ := hv.cases
  · rw [houtcome] at hrun
    simp only [Session.equals, hrun, htext]
    rfl
  · rw [houtcome] at hrun
    simp only [Session.equals, hrun]
    rfl

end Console

/-! ## The command line -/

/-- The command line prints the verdict on an expression, and its exit code tells the two kinds apart. -/
theorem CommandLine.runSingle_eq (hsound : s.flaw? = none) {choice : AngleMode.Choice} {mode : AngleMode}
    (hchoice : choice.mode? = some mode) {v : Verdict}
    (hv : v.Of s (Expression.evaluate s.arithmetic mode line)) :
    runSingle s choice line = v.onCommandLine := by
  have hcreate : Evaluator.create s none (some choice) = .ok ⟨mode, .empty s.cacheSize⟩ :=
    Evaluator.create_of_mode?_eq hchoice
  have hcoherent := Evaluator.coherent_of_create hcreate (Settings.evaluator_of_sound hsound).1
  have hown : Evaluator.modeFor ⟨mode, .empty s.cacheSize⟩ none = .ok mode := rfl
  have hrun := hcoherent.evaluate_fst s.arithmetic hown (some line)
  rw [Option.getD_some] at hrun
  obtain ⟨value, text, houtcome, htext, rfl⟩ | ⟨error, houtcome, rfl⟩ := hv.cases
  · simp only [runSingle, hcreate, hrun, houtcome, htext]
    rfl
  · simp only [runSingle, hcreate, hrun, houtcome]
    rfl

/-! ## Batches -/

/-- A row that asks for an expression holds the verdict on it. -/
theorem Batch.exists_inRow {evaluator : Option Evaluator} {r : Request} {table : Table}
    {own mode : AngleMode} {row : List Cell} {i : Nat} (hsound : s.flaw? = none)
    (hevaluator : ∀ e ∈ evaluator, e.Coherent) (hlegible : r.Legible s table)
    (hown : ownMode? s r evaluator = some own) (hrow : table.rows[i]? = some row)
    (hasked : r.asked? s own table row = some (line, mode)) {v : Verdict}
    (hv : v.Of s (Expression.evaluate s.arithmetic mode line)) :
    ∃ report x, evaluateAt s r evaluator table = .ok report ∧ report.results[i]? = some x ∧ v.InRow x := by
  obtain ⟨e, hcoherent, hmode, hevaluate⟩ := exists_evaluateAt_eq hsound hevaluator hlegible.mode
  obtain rfl : own = e.mode := Option.some.inj (hown.symm.trans hmode)
  obtain ⟨results, next, hrun, hresults, -, -⟩ :=
    exists_evaluateWith_eq hcoherent hsound table (hlegible.exists_asked?_eq e.mode)
  obtain ⟨hi, rfl⟩ := List.getElem?_eq_some_iff.1 hrow
  have hi' : i < results.length := hresults.length_eq ▸ hi
  obtain ⟨text, mode', hasked', hx⟩ := hresults.get hi hi'
  obtain ⟨rfl, rfl⟩ := Prod.mk.inj (Option.some.inj (hasked.symm.trans hasked'))
  exact ⟨⟨addResults table results, results⟩, results[i], by rw [hevaluate, hrun],
    List.getElem?_eq_getElem hi', hv.inRow hx⟩

/-- The three ways agree. An expression has one verdict in a mode: the console prints it in every session in
that mode, the command line prints it for that mode, and it stands in every row that asks for the expression in
that mode, whatever the batch and its evaluator. -/
theorem frontEnds_agree (hsound : s.flaw? = none) (h : Session.Reached s session e)
    (hline : Console.IsExpression line) {choice : AngleMode.Choice}
    (hchoice : choice.mode? = some session.mode) :
    ∃ v : Verdict, v.Of s (Expression.evaluate s.arithmetic session.mode line) ∧
      (Console.handle s session e line).1 = .ok (some v.onConsole) ∧
      CommandLine.runSingle s choice line = v.onCommandLine ∧
      ∀ (evaluator : Option Evaluator) (r : Batch.Request) (table : Table) (own : AngleMode) (i : Nat)
        (row : List Cell), (∀ e ∈ evaluator, e.Reached s ∧ 0 ≤ e.cache.capacity) → r.Legible s table →
        Batch.ownMode? s r evaluator = some own → table.rows[i]? = some row →
        r.asked? s own table row = some (line, session.mode) →
        ∃ report x, Batch.evaluateAt s r evaluator table = .ok report ∧ report.results[i]? = some x ∧
          v.InRow x := by
  obtain ⟨v, hv⟩ := Verdict.exists_of_sound hsound
    (Expression.evaluate s.arithmetic session.mode line)
  refine ⟨v, hv, Console.handle_eq (h.coherent hsound) hline hv,
    CommandLine.runSingle_eq hsound hchoice hv, ?_⟩
  intro evaluator r table own i row hevaluator hlegible hown hrow hasked
  exact Batch.exists_inRow hsound (fun e he => (hevaluator e he).1.coherent (hevaluator e he).2)
    hlegible hown hrow hasked hv

/-- A session in radians, after a few lines of input. -/
def Console.seasoned : Session × Evaluator :=
  (handleAll .standard ⟨"", 0, .radians, .empty 60, []⟩ ⟨.degrees, .empty 256⟩
    ["1/", ":m-", "2/3", ":m+"]).2

/-- One line at a console with a past, on the command line and as a row of a table. -/
theorem frontEnds_agree_seasoned :
    Settings.standard.flaw? = none ∧ Console.IsExpression "\u00a02/3 " ∧
      Console.seasoned.1.memory = 0.6666666667 ∧
      ∃ v : Verdict, (Console.handle .standard Console.seasoned.1 Console.seasoned.2 "\u00a02/3 ").1 =
          .ok (some v.onConsole) ∧
        v.onConsole = "= 0.6666666667" ∧
        CommandLine.runSingle .standard (.name "RAD ") "\u00a02/3 " = v.onCommandLine ∧
        ∃ report x, Batch.evaluateAt .standard Batch.inRadians none Batch.mixed = .ok report ∧
          report.results[2]? = some x ∧ v.InRow x := by
  have hsound : Settings.standard.flaw? = none := by decide +kernel
  have hevaluator : Evaluator.create .standard none none = .ok ⟨.degrees, .empty 256⟩ :=
    Evaluator.create_of_mode?_eq (by decide +kernel)
  have hsession : Session.create .standard ⟨.degrees, .empty 256⟩ (some (.name "rad")) none [] =
      .ok ⟨"", 0, .radians, .empty 60, []⟩ := by rfl
  have hopened : Session.Reached .standard ⟨"", 0, .radians, .empty 60, []⟩ ⟨.degrees, .empty 256⟩ :=
    .create (.create hevaluator) (by decide) hsession
  have hreached : Session.Reached .standard Console.seasoned.1 Console.seasoned.2 :=
    (((hopened.handle "1/").handle ":m-").handle "2/3").handle ":m+"
  have hline : Console.IsExpression "\u00a02/3 " :=
    ⟨by decide +kernel, by decide +kernel, by decide +kernel⟩
  have hmode : Console.seasoned.1.mode = .radians := by decide +kernel
  have hprinted : (Console.handle .standard Console.seasoned.1 Console.seasoned.2 "\u00a02/3 ").1 =
      .ok (some "= 0.6666666667") := by decide +kernel
  have hchoice : (AngleMode.Choice.name "RAD ").mode? = some Console.seasoned.1.mode := by decide +kernel
  obtain ⟨v, -, hconsole, hsingle, hbatch⟩ := frontEnds_agree hsound hreached hline hchoice
  refine ⟨hsound, hline, by decide +kernel, v, hconsole,
    Option.some.inj (Except.ok.inj (hconsole.symm.trans hprinted)), hsingle, ?_⟩
  refine hbatch none Batch.inRadians Batch.mixed .radians 2 _ (by simp) Batch.legible_mixed ?_ rfl ?_
  · decide +kernel
  · rw [hmode]
    decide +kernel

end DeskCalculator
