import DeskCalculator.Console
import DeskCalculator.Proofs.FactorialValues
import DeskCalculator.Proofs.KnownOperators
import DeskCalculator.Proofs.Places
import DeskCalculator.Proofs.SessionRuns
import DeskCalculator.Proofs.TrailingNumber

/-!
# Nothing but an answer comes back

Whatever is typed, a calculator with sound settings answers with a value or with a failure of the
expression, and either can be shown. A request is refused only for what it asks for: a constant, a
position or a mode that there is not (`Session.exists_act_eq_ok`). The console never makes such a
request, so no line of input ends it with a fault.

The evaluator has to be coherent for this, and every action keeps it so. What the steps below sessions
need is collected in `Settings.Contained`: the texts that are read as numbers are numerals, operators
have ranks, what is rounded for the display stays finite, and no product is cut off.
-/

namespace DeskCalculator

variable {s : Settings} {e : Evaluator}

/-! ## Sound settings -/

namespace Settings

/-- What sound settings mean for a display. -/
theorem digits_of_sound (h : s.flaw? = none) :
    0 < s.display.exponentDigits ∧ 0 < s.display.fixedDigits := by
  unfold flaw? at h
  grind

/-- Sound settings can make a new evaluator. -/
theorem evaluator_of_sound (h : s.flaw? = none) :
    0 ≤ s.cacheSize ∧ ∃ mode, s.defaultMode.mode? = some mode := by
  have hdefault : s.defaultMode = .name "deg" ∨ s.defaultMode = .name "rad" := by
    unfold flaw? at h
    grind
  refine ⟨by unfold flaw? at h; grind, ?_⟩
  rcases hdefault with hdefault | hdefault
  · exact ⟨.degrees, by rw [hdefault]; decide +kernel⟩
  · exact ⟨.radians, by rw [hdefault]; decide +kernel⟩

/-- A value with a text, or a failure of one of the three kinds, shown as an error, that the expression
is to blame for. -/
def Presents (s : Settings) : Outcome → Prop
  | .ok value => ∃ shown, s.display.outcomeText (.ok value) = .ok shown
  | .error error =>
    s.display.outcomeText (.error error) = .ok Display.errorText ∧ error.isInternal = false ∧
      error.kind ∈ [.invalidExpression, .unknownFunction, .invalidFactorial]

end Settings

/-- Only a negative number of digits can make a display fail. -/
theorem Display.exists_text {d : Display} (h : 0 ≤ d.exponentDigits) (x : Float) :
    ∃ shown, d.text x = .ok shown := by
  unfold Display.text
  split
  · exact ⟨_, rfl⟩
  · exact ⟨_, rfl⟩
  · split
    · rw [if_neg (not_lt.2 h)]
      exact ⟨_, rfl⟩
    · exact ⟨_, rfl⟩

/-- The outcome of any text can be shown. -/
theorem Expression.presents_evaluate (h : s.flaw? = none) (mode : AngleMode) (text : String) :
    s.Presents (evaluate s.arithmetic mode text) := by
  cases houtcome : evaluate s.arithmetic mode text with
  | ok value => exact Display.exists_text (Settings.digits_of_sound h).1.le value
  | error error =>
    refine ⟨rfl, ?_, by cases error.kind <;> simp⟩
    rw [evaluate] at houtcome
    split at houtcome
    · cases houtcome
    · exact Program.isInternal_of_run_compile_eq_error houtcome

/-- An evaluator answers in every mode that there is. -/
theorem Evaluator.Coherent.exists_evaluate_eq (h : e.Coherent) (a : Arithmetic)
    {choice : Option AngleMode.Choice} (hchoice : ∀ c ∈ choice, ∃ mode, c.mode = .ok mode)
    (text : Option String) :
    ∃ mode, (e.evaluate a choice text).1 = .ok (Expression.evaluate a mode (text.getD "")) := by
  cases choice with
  | none => exact ⟨e.mode, h.evaluate_fst a rfl text⟩
  | some c =>
    obtain ⟨mode, hmode⟩ := hchoice c rfl
    have hfor : e.modeFor (some c) = .ok mode := hmode
    exact ⟨mode, h.evaluate_fst a hfor text⟩

/-! ## Sessions -/

namespace Session

/-- Pressing equals is never refused. -/
theorem exists_equals_eq_ok (h : e.Coherent) (hsound : s.flaw? = none) (session : Session) :
    ∃ outcome, (session.equals s e).1 = .ok outcome := by
  obtain ⟨next, hrun⟩ := h.exists_evaluateIn_eq s.arithmetic session.mode (some session.line)
  cases houtcome : Expression.evaluate s.arithmetic session.mode ((some session.line).getD "") with
  | error error =>
    refine ⟨.error error, ?_⟩
    simp only [equals, hrun, houtcome]
  | ok value =>
    obtain ⟨shown, hshown⟩ := Display.exists_text (Settings.digits_of_sound hsound).1.le value
    refine ⟨.ok value, ?_⟩
    simp only [equals, hrun, houtcome, hshown]

/-- With sound settings every outcome can be displayed. -/
theorem exists_displayText_eq_ok (hsound : s.flaw? = none) (outcome : Outcome) :
    ∃ shown, displayText s outcome = .ok shown := by
  cases outcome with
  | error error => exact ⟨_, rfl⟩
  | ok value =>
    rw [displayText]
    split
    · exact ⟨_, rfl⟩
    · exact Display.exists_text (Settings.digits_of_sound hsound).1.le value

/-- An action is refused only if it asks for a constant, a position or a mode that there is not. -/
theorem exists_act_eq_ok (h : e.Coherent) (hsound : s.flaw? = none) (session : Session) {action : Action}
    (hconstant : ∀ name, action = .constant name → name = "pi" ∨ name = "e" ∨ name = "rand")
    (hrecall : ∀ position, action = .recall position →
      ∃ entry, session.history.entryAt position = .ok entry)
    (hmode : ∀ choice, action = .setMode choice → ∃ mode, choice.mode = .ok mode) :
    ∃ answer, (session.act s e action).1 = .ok answer := by
  obtain ⟨next, hrun⟩ := h.exists_evaluateIn_eq s.arithmetic session.mode (some session.line)
  cases action with
  | constant name =>
    rcases hconstant name rfl with rfl | rfl | rfl
    · exact ⟨_, rfl⟩
    · exact ⟨_, rfl⟩
    · exact ⟨_, rfl⟩
  | setMode choice =>
    obtain ⟨mode, hmode⟩ := hmode choice rfl
    exact ⟨.mode mode, by simp only [act, hmode]⟩
  | evaluate => exact ⟨_, by simp only [act, hrun]; rfl⟩
  | memoryAdd | memorySubtract => exact ⟨_, by simp only [act, addToMemory, hrun]; rfl⟩
  | display =>
    obtain ⟨shown, hshown⟩ := exists_displayText_eq_ok hsound
      (Expression.evaluate s.arithmetic session.mode ((some session.line).getD ""))
    exact ⟨.display shown, by simp only [act, hrun, hshown]; rfl⟩
  | equals =>
    obtain ⟨outcome, hequals⟩ := exists_equals_eq_ok h hsound session
    exact ⟨.outcome outcome, by rw [act_equals, hequals]; rfl⟩
  | input | function | clear | delete | percent => exact ⟨_, rfl⟩
  | memoryRecall | memoryClear | toggleMode | clearHistory => exact ⟨_, rfl⟩
  | _ position =>
    obtain ⟨entry, hentry⟩ := hrecall position rfl
    exact ⟨.line entry.result, by simp only [act, hentry, withLine]⟩

end Session

/-! ## The console -/

namespace Console

/-- The only modes that a line asks for are the two that there are. -/
theorem mode_of_ofLine_eq {line name : String} (h : Command.ofLine line = .setMode name) :
    name = "deg" ∨ name = "rad" := by
  unfold Command.ofLine at h
  simp only at h
  generalize Text.trimmed line = trimmed at h
  by_cases hdeg : trimmed = ":deg"
  · subst hdeg
    exact .inl (Command.setMode.inj h).symm
  by_cases hrad : trimmed = ":rad"
  · subst hrad
    exact .inr (Command.setMode.inj h).symm
  rw [if_neg hdeg, if_neg hrad] at h
  repeat' split at h
  all_goals cases h

/-- What the console does for an action is the action, with its answer as a text. -/
theorem perform_eq (s : Settings) (session : Session) (e : Evaluator) (action : Session.Action) :
    perform s session e action =
      ((session.act s e action).1.map answerText, (session.act s e action).2) := by
  rw [perform]
  obtain ⟨_ | _, _, _⟩ := session.act s e action <;> rfl

/-- The console leaves behind what the equals key leaves behind. -/
theorem equals_snd (s : Settings) (session : Session) (e : Evaluator) :
    (equals s session e).2 = (session.equals s e).2 := by
  rw [equals]
  obtain ⟨_ | _ | _, _, _⟩ := session.equals s e <;> rfl

/-- Pressing equals in the console has an answer. -/
theorem exists_equals_eq_ok (h : e.Coherent) (hsound : s.flaw? = none) (session : Session) :
    ∃ text, (equals s session e).1 = .ok text := by
  obtain ⟨outcome, houtcome⟩ := Session.exists_equals_eq_ok h hsound session
  rw [equals]
  generalize session.equals s e = reply at houtcome ⊢
  obtain ⟨result, after, next⟩ := reply
  obtain rfl : result = .ok outcome := houtcome
  cases outcome <;> exact ⟨_, rfl⟩

/-- A reply that is shown is the reply, and it does not end the console. -/
theorem shown_eq (reply : Session.Reply String) : execute.shown reply = (reply.1.map some, reply.2) := by
  obtain ⟨_ | _, _, _⟩ := reply <;> rfl

/-- A command that asks for no unknown mode is answered, and the evaluator stays coherent. -/
theorem execute_of_coherent (h : e.Coherent) (hsound : s.flaw? = none) (session : Session)
    {command : Command} (hmode : ∀ name, command = .setMode name → name = "deg" ∨ name = "rad") :
    (∃ output, (execute s session e command).1 = .ok output) ∧
      (execute s session e command).2.2.Coherent := by
  have hperform : ∀ action, (∃ answer, (session.act s e action).1 = .ok answer) →
      (∃ output, (execute.shown (perform s session e action)).1 = .ok output) ∧
        (execute.shown (perform s session e action)).2.2.Coherent := by
    intro action ⟨answer, hanswer⟩
    rw [shown_eq, perform_eq, hanswer]
    exact ⟨⟨_, rfl⟩, h.act s session action⟩
  have hequals : ∀ line, (∃ output, (execute.shown (equals s { session with line } e)).1 = .ok output) ∧
      (execute.shown (equals s { session with line } e)).2.2.Coherent := by
    intro line
    obtain ⟨text, htext⟩ := exists_equals_eq_ok h hsound { session with line }
    have hcoherent := h.act s { session with line } .equals
    rw [Session.act_equals] at hcoherent
    rw [shown_eq, equals_snd, htext]
    exact ⟨⟨_, rfl⟩, hcoherent⟩
  cases command with
  | setMode name =>
    rw [execute]
    refine hperform (.setMode (.name name))
      (Session.exists_act_eq_ok h hsound session (by simp) (by simp) ?_)
    rintro choice ⟨⟩
    rcases hmode name rfl with rfl | rfl
    · exact ⟨.degrees, by decide +kernel⟩
    · exact ⟨.radians, by decide +kernel⟩
  | memoryRecall =>
    rw [execute]
    exact hperform .memoryRecall (Session.exists_act_eq_ok h hsound session (by simp) (by simp) (by simp))
  | memoryAdd =>
    rw [execute]
    exact hperform .memoryAdd (Session.exists_act_eq_ok h hsound session (by simp) (by simp) (by simp))
  | memorySubtract =>
    rw [execute]
    exact hperform .memorySubtract
      (Session.exists_act_eq_ok h hsound session (by simp) (by simp) (by simp))
  | percent line =>
    rw [execute]
    exact hequals (Percent.apply line)
  | evaluate line =>
    rw [execute]
    exact hequals line
  | quit | showMode | showHistory | clearHistory | memoryClear | help => exact ⟨⟨_, rfl⟩, h⟩

/-- Every line of input is answered, and the evaluator stays coherent. -/
theorem handle_of_coherent (h : e.Coherent) (hsound : s.flaw? = none) (session : Session)
    (line : String) :
    (∃ output, (handle s session e line).1 = .ok output) ∧ (handle s session e line).2.2.Coherent := by
  rw [handle]
  exact execute_of_coherent h hsound session fun _ => mode_of_ofLine_eq

/-- The replies to lines of input, one after the other, and the session and the evaluator afterwards. A
line that asks to quit ends nothing here. -/
def handleAll (s : Settings) (session : Session) (e : Evaluator) :
    List String → List (Except Fault (Option String)) × Session × Evaluator
  | [] => ([], session, e)
  | line :: lines =>
    let (reply, session, e) := handle s session e line
    let (replies, session, e) := handleAll s session e lines
    (reply :: replies, session, e)

/-- The first answer is the one to the first line, and the others are given from there. -/
theorem handleAll_cons_fst (s : Settings) (session : Session) (e : Evaluator) (line : String)
    (lines : List String) :
    (handleAll s session e (line :: lines)).1 =
      (handle s session e line).1 ::
        (handleAll s (handle s session e line).2.1 (handle s session e line).2.2 lines).1 := by
  rw [handleAll]

/-- Every line has an answer. -/
theorem handleAll_of_coherent (h : e.Coherent) (hsound : s.flaw? = none) (session : Session)
    (lines : List String) : ∀ reply ∈ (handleAll s session e lines).1, ∃ output, reply = .ok output := by
  induction lines generalizing session e with
  | nil => simp [handleAll]
  | cons line lines ih =>
    obtain ⟨houtput, hcoherent⟩ := handle_of_coherent h hsound session line
    rw [handleAll_cons_fst]
    generalize handle s session e line = answered at houtput hcoherent ⊢
    intro reply hreply
    rcases List.mem_cons.1 hreply with rfl | hreply
    · exact houtput
    · exact ih hcoherent answered.2.1 reply hreply

/-- However many lines are given, no fault ends the console. -/
theorem transcript_snd_of_coherent (h : e.Coherent) (hsound : s.flaw? = none) (session : Session)
    (lines : List String) : (transcript s session e lines).2 = none := by
  induction lines generalizing session e with
  | nil => rfl
  | cons line lines ih =>
    obtain ⟨⟨output, houtput⟩, hcoherent⟩ := handle_of_coherent h hsound session line
    rw [transcript]
    split
    · exact ih h session
    · generalize handle s session e line = reply at houtput hcoherent ⊢
      obtain ⟨result, after, next⟩ := reply
      obtain rfl : result = .ok output := houtput
      cases output with
      | none => rfl
      | some text => exact ih hcoherent after

end Console

/-! ## Containment -/

/-- What is typed never gets anything but an answer. -/
structure Settings.Contained (s : Settings) : Prop where
  /-- The reader of numbers takes every number of a text. -/
  literals : ∀ text digits value, .number digits value ∈ Token.tokenize text →
    Numeral.read digits = .ok value
  /-- No operator of a text lacks a rank when it is asked for. -/
  operators : ∀ text, Program.ofTokens? (Token.tokenize text) = .ok (Program.compile text)
  /-- The number in front of which the percent key cuts a line is a numeral. -/
  numbers : ∀ line before number, Percent.split? line = some (before, number) →
    ∃ n, Numeral.parse? number = some n
  /-- No factorial is cut off. -/
  factorials : ∀ steps limit, factorialSteps ≤ steps →
    risingProduct limit steps 1 2 = risingProduct limit factorialSteps 1 2
  /-- What is rounded for the display stays finite. -/
  roundings : ∀ x : Float, x.isFinite = true → (roundToPlaces s.display.fixedDigits x).isFinite = true
  /-- Every text has an outcome, and it can be shown. -/
  outcomes : ∀ mode text, s.Presents (Expression.evaluate s.arithmetic mode text)
  /-- Every evaluator in use answers every text with such an outcome. -/
  evaluators : ∀ (e : Evaluator) choice text, e.Reached s → 0 ≤ e.cache.capacity →
    (∀ c ∈ choice, ∃ mode, AngleMode.Choice.mode c = .ok mode) →
      ∃ outcome, (e.evaluate s.arithmetic choice text).1 = .ok outcome ∧ s.Presents outcome
  /-- Every line of input is answered, in every session. -/
  replies : ∀ (e : Evaluator) session lines, e.Reached s → 0 ≤ e.cache.capacity →
    ∀ reply ∈ (Console.handleAll s session e lines).1, ∃ output, reply = .ok output
  /-- No input ends the console with a fault. -/
  consoles : ∀ (e : Evaluator) session input, e.Reached s → 0 ≤ e.cache.capacity →
    (Console.run s session e input).2 = none

/-- With sound settings nothing but an answer comes back. -/
theorem Settings.contained_of_sound (h : s.flaw? = none) : s.Contained where
  literals text digits value := Token.read_of_mem_tokenize
  operators := Program.ofTokens?_tokenize
  numbers line before number hsplit := by
    obtain ⟨d, hd⟩ := (Percent.split?_eq_some_iff.1 hsplit).2.isNumber.exists_parse?
    exact ⟨_, hd⟩
  factorials steps limit hsteps := risingProduct_eq_of_le hsteps limit
  roundings x := isFinite_roundToPlaces (digits_of_sound h).2.le
  outcomes := Expression.presents_evaluate h
  evaluators e choice text hreached hcapacity hchoice := by
    obtain ⟨mode, hmode⟩ := (hreached.coherent hcapacity).exists_evaluate_eq s.arithmetic hchoice text
    exact ⟨_, hmode, Expression.presents_evaluate h mode (text.getD "")⟩
  replies e session lines hreached hcapacity :=
    Console.handleAll_of_coherent (hreached.coherent hcapacity) h session lines
  consoles e session input hreached hcapacity :=
    Console.transcript_snd_of_coherent (hreached.coherent hcapacity) h session (Console.inputLines input)

/-- Lines that fail, quit, ask for help, divide a foreign digit or fill the memory with an error. -/
def Console.unruly : List String :=
  ["1.2.3(", ":% 2+٣", " q ", ":m+", ":grad", "fact(-1)", ":history", "tan(90)/0", ")"]

/-- Lines that break every rule of expressions and commands at once are all answered. -/
theorem Settings.contained_of_sound_standard :
    Settings.standard.flaw? = none ∧ Settings.standard.Contained ∧
      (∀ reply ∈ (Console.handleAll .standard Session.fresh ⟨.degrees, .empty 256⟩ Console.unruly).1,
        ∃ output, reply = .ok output) ∧
      Settings.standard.Presents (Expression.evaluate .ieee .radians "1.2.3 ÷ ٣ )") := by
  have hsound : Settings.standard.flaw? = none := by decide +kernel
  have hcreate : Evaluator.create .standard none none = .ok ⟨.degrees, .empty 256⟩ := by rfl
  have h := Settings.contained_of_sound hsound
  exact ⟨hsound, h, h.replies _ _ _ (.create hcreate) (by decide), h.outcomes _ _⟩

end DeskCalculator
