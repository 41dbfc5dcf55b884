import DeskCalculator.Proofs.SessionRuns
import Mathlib.Logic.Function.Basic

/-!
# Sessions that share an evaluator

Sessions at the same evaluator read and change one cache, while their angle modes differ, and anyone may
ask the evaluator for something or empty its cache in between. `Session.shareAll_own` shows that none of
this reaches a session: its answers, its line, memory, mode and history are those of its own actions
alone, at a new evaluator.

The sessions are told apart by the elements of any type, so two of them are the case of `Bool`. Nothing is
said of the counters of the cache, which do depend on all sessions.
-/

namespace DeskCalculator

/-- What can happen at a shared evaluator: an action in one of the sessions, or a request to the evaluator
itself. -/
inductive SharedStep (ι : Type) where
  | act (i : ι) (action : Session.Action)
  | request (request : Evaluator.Request)

namespace SharedStep

variable {ι : Type} [DecidableEq ι]

/-- The action of a step, if it is one in the given session. -/
def own? (i : ι) : SharedStep ι → Option Session.Action
  | act j action => if j = i then some action else none
  | request _ => none

/-- The actions in one session. -/
def own (i : ι) (steps : List (SharedStep ι)) : List Session.Action :=
  steps.filterMap (own? i)

/-- An action in the session is its own. -/
theorem own_act_self (i : ι) (action : Session.Action) (rest : List (SharedStep ι)) :
    own i (.act i action :: rest) = action :: own i rest := by
  simp [own, own?]

/-- An action in another session is not its own. -/
theorem own_act_of_ne {i j : ι} (h : j ≠ i) (action : Session.Action) (rest : List (SharedStep ι)) :
    own i (.act j action :: rest) = own i rest := by
  simp [own, own?, h]

end SharedStep

/-- What a fresh session is made of depends on the mode of the evaluator only. -/
theorem Session.create_congr {e e' : Evaluator} (h : e.mode = e'.mode) (s : Settings)
    (mode : Option AngleMode.Choice) (historyLimit : Option Int) (draws : List Float) :
    Session.create s e mode historyLimit draws = Session.create s e' mode historyLimit draws := by
  simp only [Session.create, Evaluator.modeFor, h]

namespace Session

variable {ι : Type} [DecidableEq ι] {s : Settings} {e e' : Evaluator}

/-- The answers to a run of steps, each with its session, and the sessions and the evaluator at its end. -/
def shareAll (s : Settings) (sessions : ι → Session) (e : Evaluator) :
    List (SharedStep ι) → List (ι × Except Fault Answer) × (ι → Session) × Evaluator
  | [] => ([], sessions, e)
  | .act i action :: rest =>
    let (answer, session, e) := (sessions i).act s e action
    let (answers, sessions, e) := shareAll s (Function.update sessions i session) e rest
    ((i, answer) :: answers, sessions, e)
  | .request request :: rest => shareAll s sessions (e.serve s.arithmetic request).2 rest

/-- A step in one session changes this session and the evaluator. -/
theorem shareAll_act (s : Settings) (sessions : ι → Session) (e : Evaluator) (i : ι) (action : Action)
    (rest : List (SharedStep ι)) :
    shareAll s sessions e (.act i action :: rest) =
      let after := (sessions i).act s e action
      let others := shareAll s (Function.update sessions i after.2.1) after.2.2 rest
      ((i, after.1) :: others.1, others.2) := rfl

/-- The answers that one session got. -/
def answersOf (i : ι) (answers : List (ι × Except Fault Answer)) : List (Except Fault Answer) :=
  (answers.filter (·.1 = i)).map Prod.snd

/-- An answer to the session is among its answers. -/
theorem answersOf_cons_self (i : ι) (answer : Except Fault Answer)
    (answers : List (ι × Except Fault Answer)) :
    answersOf i ((i, answer) :: answers) = answer :: answersOf i answers := by
  simp [answersOf]

/-- An answer to another session is not among them. -/
theorem answersOf_cons_of_ne {i j : ι} (h : j ≠ i) (answer : Except Fault Answer)
    (answers : List (ι × Except Fault Answer)) :
    answersOf i ((j, answer) :: answers) = answersOf i answers := by
  simp [answersOf, h]

/-- At coherent evaluators a session in company gives the answers that it gives on its own, and ends as it
ends on its own. -/
theorem shareAll_of_coherent (h : e.Coherent) (h' : e'.Coherent) (s : Settings) (sessions : ι → Session)
    (steps : List (SharedStep ι)) (i : ι) :
    answersOf i (shareAll s sessions e steps).1 =
        (actAll s (sessions i) e' (SharedStep.own i steps)).1 ∧
      (shareAll s sessions e steps).2.1 i = (actAll s (sessions i) e' (SharedStep.own i steps)).2.1 := by
  induction steps generalizing sessions e e' with
  | nil => exact ⟨rfl, rfl⟩
  | cons step rest ih =>
    cases step with
    | request request => exact ih (h.serve s.arithmetic request) h' sessions
    | act j action =>
      have hnext := h.act s (sessions j) action
      rw [shareAll_act]
      by_cases hj : j = i
      · subst hj
        -- the session itself acts: the same answer and the same session afterwards at both evaluators
        obtain ⟨hanswer, hafter⟩ := act_congr h h' s (sessions j) action
        obtain ⟨hanswers, hsession⟩ := ih hnext (h'.act s (sessions j) action)
          (Function.update sessions j ((sessions j).act s e action).2.1)
        rw [Function.update_self] at hanswers hsession
        rw [answersOf_cons_self, SharedStep.own_act_self, actAll_cons, ← hanswer, ← hafter]
        exact ⟨congrArg _ hanswers, hsession⟩
      · -- another session acts: this one stays as it is, and only the evaluator goes on
        obtain ⟨hanswers, hsession⟩ := ih hnext h'
          (Function.update sessions j ((sessions j).act s e action).2.1)
        rw [Function.update_of_ne (Ne.symm hj)] at hanswers hsession
        rw [answersOf_cons_of_ne hj, SharedStep.own_act_of_ne hj]
        exact ⟨hanswers, hsession⟩

/-- Sessions at one evaluator do not disturb each other. Each is created as at a new evaluator of the same
mode, and whatever happens at the evaluator, it gives the answers to its own actions, and ends, as if it
were alone at the new one. Every beginning of a run is a run, so the sessions agree after each step. -/
theorem shareAll_own {fresh : Evaluator} {size : Option Int} {choice : Option AngleMode.Choice}
    (h : e.Reached s) (hcapacity : 0 ≤ e.cache.capacity)
    (hfresh : Evaluator.create s size choice = .ok fresh) (hsize : 0 ≤ size.getD s.cacheSize)
    (hmode : fresh.mode = e.mode) :
    (∀ mode historyLimit draws,
      Session.create s e mode historyLimit draws = Session.create s fresh mode historyLimit draws) ∧
    ∀ (sessions : ι → Session) (steps : List (SharedStep ι)) (i : ι),
      answersOf i (shareAll s sessions e steps).1 =
          (actAll s (sessions i) fresh (SharedStep.own i steps)).1 ∧
        (shareAll s sessions e steps).2.1 i =
          (actAll s (sessions i) fresh (SharedStep.own i steps)).2.1 := by
  refine ⟨Session.create_congr hmode.symm s, ?_⟩
  intro sessions steps i
  exact shareAll_of_coherent (h.coherent hcapacity) (Evaluator.coherent_of_create hfresh hsize)
    s sessions steps i

/-- Two sessions that type the same line in different modes. -/
def opposed (inRadians : Bool) : Session :=
  { fresh with mode := if inRadians then .radians else .degrees }

/-- The same expression in both modes, with the cache emptied, filled by others and asked for the same
program in between. -/
def crossing : List (SharedStep Bool) :=
  [.act true (.input "tan(0"), .act false (.input "tan(0"), .act false .equals, .act true (.input ")"),
    .request .clear, .act true .display, .request (.compile (some "tan(0)")), .act false (.input ")+1"),
    .request (.evaluate (some (.name "grad")) (some "tan(0")), .act false .equals, .act true .equals,
    .act false .memoryAdd, .act true (.recall 0), .act true .memorySubtract]

/-- Two sessions in different modes cross on one evaluator, each with what it has alone. -/
theorem shareAll_own_crossing :
    Evaluator.create .standard (some 1) none = .ok ⟨.degrees, .empty 1⟩ ∧
      answersOf true (shareAll .standard opposed ⟨.degrees, .empty 1⟩ crossing).1 =
        (actAll .standard (opposed true) ⟨.degrees, .empty 0⟩
          [.input "tan(0", .input ")", .display, .equals, .recall 0, .memorySubtract]).1 ∧
      (shareAll .standard opposed ⟨.degrees, .empty 1⟩ crossing).2.1 false =
        (actAll .standard (opposed false) ⟨.degrees, .empty 0⟩
          [.input "tan(0", .equals, .input ")+1", .equals, .memoryAdd]).2.1 ∧
      ((shareAll .standard opposed ⟨.degrees, .empty 1⟩ crossing).2.1 false).memory = 1 := by
  have hcreate : Evaluator.create .standard (some 1) none = .ok ⟨.degrees, .empty 1⟩ :=
    Evaluator.create_of_mode?_eq (by decide +kernel)
  have hfresh : Evaluator.create .standard (some 0) none = .ok ⟨.degrees, .empty 0⟩ :=
    Evaluator.create_of_mode?_eq (by decide +kernel)
  obtain ⟨-, hown⟩ := shareAll_own (ι := Bool) (.create hcreate) (by decide) hfresh (by decide) rfl
  refine ⟨hcreate, (hown opposed crossing true).1, (hown opposed crossing false).2, ?_⟩
  rw [(hown opposed crossing false).2]
  decide +kernel

end Session

end DeskCalculator
