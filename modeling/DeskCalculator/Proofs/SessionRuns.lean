import DeskCalculator.Proofs.RepeatedEquals

/-!
# Runs of a session

A session carries its line, memory, mode and history from one action to the next, and the evaluator
carries its cache. What an action answers and what it makes of the session does not depend on the cache,
as long as the evaluator is coherent: `Session.act_congr`.

An action fails if it is refused, or if it asks for a value and there is none. It leaves the session as
it was (`session_of_failed`), and what it did to the cache cannot be seen afterwards. So the failed steps
of a run can be deleted: `actAll_succeeding`.
-/

namespace DeskCalculator

/-! ## Evaluators that can hold entries -/

namespace Evaluator

variable {s : Settings} {e : Evaluator}

/-- An evaluator in use is coherent unless its cache was made too small for anything. -/
theorem Reached.coherent (h : e.Reached s) (hcapacity : 0 ≤ e.cache.capacity) : e.Coherent :=
  ⟨hcapacity, h.trusted⟩

/-- A coherent evaluator gives every expression its outcome. -/
theorem Coherent.exists_evaluateIn_eq (h : e.Coherent) (a : Arithmetic) (mode : AngleMode)
    (text : Option String) :
    ∃ next, e.evaluateIn a mode text = (.ok (Expression.evaluate a mode (text.getD "")), next) :=
  ⟨_, Prod.ext (h.evaluateIn_fst a mode text) rfl⟩

/-- Evaluating in a mode keeps an evaluator coherent. -/
theorem Coherent.evaluateIn_snd (h : e.Coherent) (a : Arithmetic) (mode : AngleMode)
    (text : Option String) : (e.evaluateIn a mode text).2.Coherent := by
  obtain heq | heq := Evaluator.evaluateIn_snd a e mode text
  · rw [heq]
    exact h
  · rw [heq]
    exact h.compile_snd text

/-- Whatever is done in a session keeps its evaluator coherent. -/
theorem Coherent.act (h : e.Coherent) (s : Settings) (session : Session) (action : Session.Action) :
    (session.act s e action).2.2.Coherent := by
  obtain heq | heq := Session.act_snd_snd s session e action
  · rw [heq]
    exact h
  · rw [heq]
    exact h.evaluateIn_snd s.arithmetic session.mode (some session.line)

end Evaluator

namespace Session

variable {s : Settings} {session : Session} {e e' : Evaluator}

/-- Coherent evaluators are as good as one another: an action answers the same at both and makes the same
of the session. -/
theorem act_congr (h : e.Coherent) (h' : e'.Coherent) (s : Settings) (session : Session)
    (action : Action) :
    (session.act s e action).1 = (session.act s e' action).1 ∧
      (session.act s e action).2.1 = (session.act s e' action).2.1 := by
  obtain ⟨next, hrun⟩ := h.exists_evaluateIn_eq s.arithmetic session.mode (some session.line)
  obtain ⟨next', hrun'⟩ := h'.exists_evaluateIn_eq s.arithmetic session.mode (some session.line)
  cases action with
  | evaluate | display | memoryAdd | memorySubtract =>
    simp only [act, addToMemory, hrun, hrun', and_self]
  | equals =>
    simp only [act, equals, hrun, hrun']
    -- whether there is a value, and whether it can be shown, is the same at both evaluators
    cases Expression.evaluate s.arithmetic session.mode ((some session.line).getD "") with
    | error error => exact ⟨rfl, rfl⟩
    | ok value => cases htext : s.display.text value <;> simp only [htext, and_self]
  | constant name => cases htext : constantText session.draws name <;> simp [act, htext, withLine]
  | setMode choice => cases hmode : choice.mode <;> simp [act, hmode]
  | clear | delete | percent | memoryRecall | memoryClear | toggleMode | clearHistory => exact ⟨rfl, rfl⟩
  | input text => exact ⟨rfl, rfl⟩
  | function name => exact ⟨rfl, rfl⟩
  | _ position => cases hentry : session.history.entryAt position <;> simp [act, hentry, withLine]

/-- The action of the equals key is pressing it. -/
theorem act_equals (s : Settings) (session : Session) (e : Evaluator) :
    session.act s e .equals = ((session.equals s e).1.map .outcome, (session.equals s e).2) := by
  rw [act]
  obtain ⟨_ | _, _, _⟩ := session.equals s e <;> rfl

/-! ## Failed actions -/

/-- Whether an action failed: it was refused, or the evaluation it asks for gave no value. -/
def failed : Except Fault Answer → Bool
  | .error _ => true
  | .ok (.outcome (.error _)) => true
  | .ok _ => false

/-- An evaluation without a value leaves the session as it was. -/
theorem session_of_act_eq_outcome {after : Session} {error : EvalError} {action : Action}
    (h : session.act s e action = (.ok (.outcome (.error error)), after, e')) : after = session := by
  cases action <;> simp only [act, withLine, addToMemory, equals] at h <;> grind

/-- A failed action leaves the session as it was. -/
theorem session_of_failed {action : Action} (h : failed (session.act s e action).1 = true) :
    (session.act s e action).2.1 = session := by
  obtain ⟨⟨answer, after, e'⟩, hact⟩ : ∃ reply, session.act s e action = reply := ⟨_, rfl⟩
  rw [hact] at h ⊢
  cases answer with
  | error fault => exact session_of_act_eq_error hact
  | ok answer =>
    cases answer with
    | outcome outcome =>
      cases outcome with
      | error error => exact session_of_act_eq_outcome hact
      | ok value => cases h
    | line | display | memory | mode | done => cases h

/-! ## Runs -/

/-- The answers to a run of actions, and the session and the evaluator at its end. -/
def actAll (s : Settings) (session : Session) (e : Evaluator) :
    List Action → List (Except Fault Answer) × Session × Evaluator
  | [] => ([], session, e)
  | action :: rest =>
    let (answer, session, e) := session.act s e action
    let (answers, session, e) := actAll s session e rest
    (answer :: answers, session, e)

/-- The first answer is the one to the first action, and the others are given from there. -/
theorem actAll_cons (s : Settings) (session : Session) (e : Evaluator) (action : Action)
    (rest : List Action) :
    actAll s session e (action :: rest) =
      ((session.act s e action).1 ::
          (actAll s (session.act s e action).2.1 (session.act s e action).2.2 rest).1,
        (actAll s (session.act s e action).2.1 (session.act s e action).2.2 rest).2) := rfl

/-- The actions of a run that did not fail. -/
def succeeding (s : Settings) (session : Session) (e : Evaluator) (actions : List Action) :
    List Action :=
  ((actions.zip (actAll s session e actions).1).filter fun step => !failed step.2).map Prod.fst

/-- The first action is kept if it succeeds, and the others are judged from there. -/
theorem succeeding_cons (s : Settings) (session : Session) (e : Evaluator) (action : Action)
    (rest : List Action) :
    succeeding s session e (action :: rest) =
      (if failed (session.act s e action).1 then [] else [action]) ++
        succeeding s (session.act s e action).2.1 (session.act s e action).2.2 rest := by
  rw [succeeding, actAll_cons, List.zip_cons_cons, List.filter_cons]
  cases failed (session.act s e action).1 <;> rfl

/-- Without its failed steps a run gives the other answers and ends in the same session, also at another
coherent evaluator. -/
theorem actAll_succeeding_of_coherent (h : e.Coherent) (h' : e'.Coherent) (s : Settings)
    (session : Session) (actions : List Action) :
    (actAll s session e' (succeeding s session e actions)).1 =
        (actAll s session e actions).1.filter (fun answer => !failed answer) ∧
      (actAll s session e' (succeeding s session e actions)).2.1 = (actAll s session e actions).2.1 := by
  induction actions generalizing session e e' with
  | nil => exact ⟨rfl, rfl⟩
  | cons action rest ih =>
    rw [succeeding_cons, actAll_cons, List.filter_cons]
    cases hfailed : failed (session.act s e action).1 with
    | true =>
      -- the step is deleted, and the rest begins where the run began
      obtain ⟨hanswers, hsession⟩ := ih (h.act s session action) h' (session.act s e action).2.1
      rw [session_of_failed hfailed] at hanswers hsession ⊢
      exact ⟨hanswers, hsession⟩
    | false =>
      obtain ⟨hanswer, hafter⟩ := act_congr h h' s session action
      obtain ⟨hanswers, hsession⟩ :=
        ih (h.act s session action) (h'.act s session action) (session.act s e action).2.1
      rw [if_neg Bool.false_ne_true, List.singleton_append, actAll_cons, ← hanswer, ← hafter]
      exact ⟨congrArg _ hanswers, hsession⟩

/-- Deleting the failed steps of a run changes neither the answers to its other steps nor the session at
its end. -/
theorem actAll_succeeding (h : e.Reached s) (hcapacity : 0 ≤ e.cache.capacity) (session : Session)
    (actions : List Action) :
    (actAll s session e (succeeding s session e actions)).1 =
        (actAll s session e actions).1.filter (fun answer => !failed answer) ∧
      (actAll s session e (succeeding s session e actions)).2.1 = (actAll s session e actions).2.1 :=
  actAll_succeeding_of_coherent (h.coherent hcapacity) (h.coherent hcapacity) s session actions

/-- An empty line, and one random number to come. -/
def fresh : Session where
  line := ""
  memory := 0
  mode := .degrees
  history := .empty 60
  draws := [0.5]

/-- Two evaluations, one of them too early, and every other way to fail in between. -/
def faltering : List Action :=
  [.input "1/", .equals, .constant "tau", .constant "rand", .recall 0, .equals,
    .setMode (.name "grad"), .recall (-1), .memoryAdd, .recall 1]

/-- A run with every way to fail, and the same run without its failed actions. -/
theorem actAll_succeeding_faltering :
    Evaluator.create .standard (some 1) none = .ok ⟨.degrees, .empty 1⟩ ∧
      succeeding .standard fresh ⟨.degrees, .empty 1⟩ faltering =
        [.input "1/", .constant "rand", .equals, .recall (-1), .memoryAdd] ∧
      (actAll .standard fresh ⟨.degrees, .empty 1⟩
          [.input "1/", .constant "rand", .equals, .recall (-1), .memoryAdd]).1 =
        (actAll .standard fresh ⟨.degrees, .empty 1⟩ faltering).1.filter (fun answer => !failed answer) ∧
      (actAll .standard fresh ⟨.degrees, .empty 1⟩
          [.input "1/", .constant "rand", .equals, .recall (-1), .memoryAdd]).2.1 =
        (actAll .standard fresh ⟨.degrees, .empty 1⟩ faltering).2.1 := by
  have hcreate : Evaluator.create .standard (some 1) none = .ok ⟨.degrees, .empty 1⟩ := by rfl
  have hkept : succeeding .standard fresh ⟨.degrees, .empty 1⟩ faltering =
      [.input "1/", .constant "rand", .equals, .recall (-1), .memoryAdd] := by decide +kernel
  have h := actAll_succeeding (.create hcreate) (by decide) fresh faltering
  rw [hkept] at h
  exact ⟨hcreate, hkept, h⟩

end Session

end DeskCalculator
