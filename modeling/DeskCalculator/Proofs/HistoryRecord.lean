import DeskCalculator.Proofs.SessionRuns
import Mathlib.Data.List.DropRight

/-!
# What the history records

The history of a session can be told from the run of its actions. Each equals that gave a value of a line
that is not blank is a `Record`: the line, the text of the value, and the mode in which the line was
evaluated. The history holds the records since it was last cleared, latest first, as many as its limit
allows, and nothing else (`Session.history_eq_records`). So whatever stands in it can be evaluated again,
in the mode of that time, to a value that shows as the result that is stored.

A record is read off one `Moment` of the run: the session just before the action, the action, and the
answer. Only the evaluator has to be in use (`Evaluator.Reached`); a cache too small for anything makes
every equals on a line that is not blank fail, and such steps are no records.
-/

namespace DeskCalculator.Session

variable {s : Settings} {session : Session} {e : Evaluator}

/-! ## The moments of a run -/

/-- One step of a run: the session just before it, the action, and the answer. -/
structure Moment where
  before : Session
  action : Action
  answer : Except Fault Answer

/-- The moment of an action. -/
def moment (s : Settings) (session : Session) (e : Evaluator) (action : Action) : Moment :=
  ⟨session, action, (session.act s e action).1⟩

/-- The moments of a run of actions. -/
def moments (s : Settings) (session : Session) (e : Evaluator) : List Action → List Moment
  | [] => []
  | action :: rest =>
    session.moment s e action ::
      moments s (session.act s e action).2.1 (session.act s e action).2.2 rest

/-- The state after one more action is the state before it, after the action. -/
theorem actAll_concat_snd (s : Settings) (session : Session) (e : Evaluator) (actions : List Action)
    (action : Action) :
    (actAll s session e (actions ++ [action])).2 =
      ((actAll s session e actions).2.1.act s (actAll s session e actions).2.2 action).2 := by
  induction actions generalizing session e with
  | nil => rfl
  | cons first rest ih => exact ih _ _

/-- One more action adds its moment, taken in the state that the others lead to. -/
theorem moments_concat (s : Settings) (session : Session) (e : Evaluator) (actions : List Action)
    (action : Action) :
    moments s session e (actions ++ [action]) =
      moments s session e actions ++
        [(actAll s session e actions).2.1.moment s (actAll s session e actions).2.2 action] := by
  induction actions generalizing session e with
  | nil => rfl
  | cons first rest ih => exact congrArg _ (ih _ _)

/-- An evaluator in use stays in use. -/
theorem reached_actAll (h : e.Reached s) (session : Session) (actions : List Action) :
    (actAll s session e actions).2.2.Reached s := by
  induction actions generalizing session e with
  | nil => exact h
  | cons action rest ih => exact ih (.act session action h) _

/-! ## Records -/

/-- What equals writes down, with the mode of the evaluation. -/
structure Record where
  mode : AngleMode
  entry : HistoryEntry
  deriving DecidableEq

/-- The line of a record is not blank, and evaluated again in the mode of that time it has a value that
shows as the stored result. -/
def Record.Reproducible (s : Settings) (r : Record) : Prop :=
  Text.allBlank r.entry.equation = false ∧
    ∃ value, Expression.evaluate s.arithmetic r.mode r.entry.equation = .ok value ∧
      s.display.text value = .ok r.entry.result

/-- The record of a moment: there is one if equals gave a value of a line that is not blank. -/
def Moment.record? (s : Settings) (m : Moment) : Option Record :=
  match m.action, m.answer with
  | .equals, .ok (.outcome (.ok value)) =>
    if Text.allBlank m.before.line then none
    else
      match s.display.text value with
      | .ok result => some ⟨m.before.mode, ⟨m.before.line, result⟩⟩
      | .error _ => none
  | _, _ => none

/-- The records since the history was last cleared. -/
def recordsSinceClear (s : Settings) (run : List Moment) : List Record :=
  (run.rtakeWhile (·.action ≠ .clearHistory)).filterMap (Moment.record? s)

/-- One more moment adds its record, or drops all of them when it clears the history. -/
theorem recordsSinceClear_concat (s : Settings) (run : List Moment) (m : Moment) :
    recordsSinceClear s (run ++ [m]) =
      if m.action = .clearHistory then []
      else recordsSinceClear s run ++ (m.record? s).toList := by
  rw [recordsSinceClear, List.rtakeWhile_concat]
  by_cases hclear : m.action = .clearHistory
  · simp [hclear]
  · rw [if_pos (by simp [hclear]), if_neg hclear, List.filterMap_append, recordsSinceClear]
    cases hrecord : m.record? s <;> simp [hrecord]

/-- When a moment has a record, and which one. -/
theorem record?_eq_some_iff {m : Moment} {r : Record} :
    m.record? s = some r ↔
      m.action = .equals ∧ Text.allBlank m.before.line = false ∧
        ∃ value result, m.answer = .ok (.outcome (.ok value)) ∧ s.display.text value = .ok result ∧
          r = ⟨m.before.mode, ⟨m.before.line, result⟩⟩ := by
  obtain ⟨before, action, answer⟩ := m
  constructor
  · intro h
    unfold Moment.record? at h
    split at h
    next value haction hanswer =>
      split at h
      · cases h
      next hblank =>
        split at h
        next result htext =>
          exact ⟨haction, Bool.eq_false_of_not_eq_true hblank, value, result, hanswer, htext,
            (Option.some.inj h).symm⟩
        · cases h
    · cases h
  · rintro ⟨haction, hblank, value, result, hanswer, htext, rfl⟩
    simp only at haction hblank hanswer
    simp [Moment.record?, haction, hanswer, hblank, htext]

/-- The value that equals answers with is the one that the evaluator gave for the line. -/
theorem evaluateIn_of_equals_eq_ok {value : Float} (h : (session.equals s e).1 = .ok (.ok value)) :
    (e.evaluateIn s.arithmetic session.mode (some session.line)).1 = .ok (.ok value) := by
  rw [equals] at h
  split at h
  next hrun => cases h
  next hrun => cases h
  next x next hrun =>
    split at h
    · cases h
    · rw [hrun]
      exact h

/-- A record can be reproduced, because what the evaluator gave is the value of the line. -/
theorem reproducible_of_record? {r : Record} {action : Action} (h : e.Trusted)
    (hrecord : (session.moment s e action).record? s = some r) : r.Reproducible s := by
  obtain ⟨rfl, hblank, value, result, hanswer, htext, rfl⟩ := record?_eq_some_iff.1 hrecord
  refine ⟨hblank, value, ?_, htext⟩
  have hequals : (session.equals s e).1 = .ok (.ok value) := by
    rw [moment, act_equals] at hanswer
    cases hreply : (session.equals s e).1 with
    | error fault => simp [hreply, Except.map] at hanswer
    | ok outcome => simpa [hreply, Except.map] using hanswer
  exact (h.eq_of_evaluateIn_eq_ok (evaluateIn_of_equals_eq_ok hequals)).symm

/-! ## The history after a run -/

/-- Pressing equals writes its record into the history, and nothing without a record. -/
theorem history_equals (s : Settings) (session : Session) (e : Evaluator) :
    (session.equals s e).2.1.history =
      match (session.moment s e .equals).record? s with
      | some r => session.history.push r.entry
      | none => session.history := by
  rw [moment, act_equals]
  cases hrun : e.evaluateIn s.arithmetic session.mode (some session.line) with
  | mk result next =>
    cases result with
    | error fault => simp only [equals, hrun, Except.map, Moment.record?]
    | ok outcome =>
      cases outcome with
      | error error => simp only [equals, hrun, Except.map, Moment.record?]
      | ok value =>
        cases htext : s.display.text value with
        | error fault => simp only [equals, hrun, htext, Except.map, Moment.record?]
        | ok text =>
          cases hblank : Text.allBlank session.line with
          | true => simp [equals, hrun, htext, Except.map, Moment.record?, hblank]
          | false => simp [equals, hrun, htext, Except.map, Moment.record?, hblank]

/-- Only equals and clearing the history change it. -/
theorem history_act_of_ne {action : Action} (hequals : action ≠ .equals)
    (hclear : action ≠ .clearHistory) (s : Settings) (session : Session) (e : Evaluator) :
    (session.act s e action).2.1.history = session.history := by
  cases action <;> simp only [act, withLine, addToMemory] <;> grind

/-- The history after an action, as the record of the action tells it. -/
theorem history_act (s : Settings) (session : Session) (e : Evaluator) (action : Action) :
    (session.act s e action).2.1.history =
      if action = .clearHistory then session.history.clear
      else
        match (session.moment s e action).record? s with
        | some r => session.history.push r.entry
        | none => session.history := by
  by_cases hclear : action = .clearHistory
  · subst hclear
    rfl
  rw [if_neg hclear]
  by_cases hequals : action = .equals
  · subst hequals
    rw [← history_equals, act_equals]
  · have hnone : (session.moment s e action).record? s = none := by
      cases hrecord : (session.moment s e action).record? s with
      | none => rfl
      | some r => exact absurd (record?_eq_some_iff.1 hrecord).1 hequals
    rw [hnone, history_act_of_ne hequals hclear]

/-- The history holds the latest of the records, and all of them can be reproduced. -/
structure Recorded (s : Settings) (limit : Nat) (records : List Record) (h : History) : Prop where
  limit_eq : h.limit = limit
  entries_eq : h.entries = (records.reverse.take limit).map Record.entry
  reproducible : ∀ r ∈ records, r.Reproducible s

/-- A new history shows no records. -/
theorem recorded_empty (s : Settings) (limit : Nat) : Recorded s limit [] (.empty limit) where
  limit_eq := rfl
  entries_eq := by simp [History.empty]
  reproducible := by simp

/-- Clearing leaves no records to be shown. -/
theorem Recorded.clear {limit : Nat} {records : List Record} {history : History}
    (h : Recorded s limit records history) : Recorded s limit [] history.clear := by
  rw [History.clear, h.limit_eq]
  exact recorded_empty s limit

/-- A new record is shown in front of the others, as far as the limit reaches. -/
theorem Recorded.push {limit : Nat} {records : List Record} {history : History} {r : Record}
    (h : Recorded s limit records history) (hr : r.Reproducible s) :
    Recorded s limit (records ++ [r]) (history.push r.entry) where
  limit_eq := h.limit_eq
  entries_eq := by
    rw [History.entries_push, h.limit_eq, h.entries_eq, List.reverse_concat, List.map_take,
      List.map_take, List.map_cons]
    -- the results beyond the limit were forgotten before and would be forgotten now
    cases limit with
    | zero => rfl
    | succ n => rw [List.take_succ_cons, List.take_succ_cons, List.take_take, min_eq_left (by omega)]
  reproducible := by
    intro r' hr'
    rcases List.mem_append.1 hr' with hold | hnew
    · exact h.reproducible r' hold
    · rwa [List.mem_singleton.1 hnew]

/-- After every run the history holds the records since it was last cleared. -/
theorem recorded_actAll {limit : Nat} (h : e.Reached s) (hempty : session.history = .empty limit)
    (actions : List Action) :
    Recorded s limit (recordsSinceClear s (moments s session e actions))
      (actAll s session e actions).2.1.history := by
  induction actions using List.reverseRecOn with
  | nil =>
    rw [show (actAll s session e []).2.1.history = .empty limit from hempty]
    exact recorded_empty s limit
  | append_singleton actions action ih =>
    have htrusted := (reached_actAll h session actions).trusted
    rw [moments_concat, recordsSinceClear_concat, actAll_concat_snd, history_act]
    by_cases hclear : action = .clearHistory
    · rw [if_pos hclear, if_pos (show (moment _ _ _ action).action = _ from hclear)]
      exact ih.clear
    rw [if_neg hclear, if_neg (show ¬ (moment _ _ _ action).action = _ from hclear)]
    cases hrecord : (moment s (actAll s session e actions).2.1 (actAll s session e actions).2.2
        action).record? s with
    | none =>
      rw [Option.toList_none, List.append_nil]
      exact ih
    | some r => exact ih.push (reproducible_of_record? htrusted hrecord)

/-- The history of a new session is empty. -/
theorem history_of_create {choice : Option AngleMode.Choice} {historyLimit : Option Int}
    {draws : List Float} {limit : Nat} (h : create s e choice historyLimit draws = .ok session)
    (hlimit : historyLimit.getD s.historyLimit = limit) : session.history = .empty limit := by
  unfold create at h
  rw [hlimit] at h
  cases hmode : e.modeFor choice with
  | error fault => simp [hmode, bind, Except.bind] at h
  | ok mode =>
    unfold History.create at h
    split_ifs at h
    · simp [hmode, bind, Except.bind] at h
    · simp [hmode, bind, Except.bind] at h
    · simp only [hmode, bind, Except.bind, pure, Except.pure, Except.ok.injEq] at h
      rw [← h, Int.toNat_natCast]

/-- The history of a session is the record of its results. After every run of actions it holds, latest
first and up to the limit, the lines and results of those presses of equals since it was last cleared that
gave a value of a line that is not blank, and each of these lines can be evaluated again, in the mode of
that time, to a value that shows as the result. -/
theorem history_eq_records {choice : Option AngleMode.Choice} {historyLimit : Option Int}
    {draws : List Float} {limit : Nat} (h : e.Reached s)
    (hcreate : create s e choice historyLimit draws = .ok session)
    (hlimit : historyLimit.getD s.historyLimit = limit) (actions : List Action) :
    (actAll s session e actions).2.1.history.entries =
        ((recordsSinceClear s (moments s session e actions)).reverse.take limit).map Record.entry ∧
      ∀ r ∈ recordsSinceClear s (moments s session e actions), r.Reproducible s := by
  have hrecorded := recorded_actAll h (history_of_create hcreate hlimit) actions
  exact ⟨hrecorded.entries_eq, hrecorded.reproducible⟩

/-- A result before the history is cleared, a chain of results, a blank line, a line without value and one
expression in each mode. -/
def bookkeeping : List Action :=
  [.input "7", .equals, .clearHistory, .input "-2*3", .equals, .input "*2", .equals, .clear, .equals,
    .input "/", .equals, .clear, .input "tan(45)", .equals, .setMode (.name "rad"), .clear,
    .input "cos(0)/3", .equals]

/-- A history with room for three entries, cleared after the first and full after the last one. -/
theorem history_eq_records_bookkeeping :
    create .standard ⟨.degrees, .empty 1⟩ none (some 3) [] =
      .ok ⟨"", 0, .degrees, .empty 3, []⟩ ∧
    (some 3).getD Settings.standard.historyLimit = (3 : Nat) ∧
    recordsSinceClear .standard
        (moments .standard ⟨"", 0, .degrees, .empty 3, []⟩ ⟨.degrees, .empty 1⟩ bookkeeping) =
      [⟨.degrees, ⟨"7-2*3", "1"⟩⟩, ⟨.degrees, ⟨"1*2", "2"⟩⟩, ⟨.degrees, ⟨"tan(45)", "1"⟩⟩,
        ⟨.radians, ⟨"cos(0)/3", "0.3333333333"⟩⟩] ∧
    (actAll .standard ⟨"", 0, .degrees, .empty 3, []⟩ ⟨.degrees, .empty 1⟩
        bookkeeping).2.1.history.entries =
      [⟨"cos(0)/3", "0.3333333333"⟩, ⟨"tan(45)", "1"⟩, ⟨"1*2", "2"⟩] ∧
    Record.Reproducible .standard ⟨.degrees, ⟨"tan(45)", "1"⟩⟩ := by
  have hevaluator : Evaluator.create .standard (some 1) none = .ok ⟨.degrees, .empty 1⟩ :=
    Evaluator.create_of_mode?_eq (by decide +kernel)
  have hcreate : create .standard ⟨.degrees, .empty 1⟩ none (some 3) [] =
      .ok ⟨"", 0, .degrees, .empty 3, []⟩ := by rfl
  have hlimit : (some 3).getD Settings.standard.historyLimit = (3 : Nat) := rfl
  have hkept : recordsSinceClear .standard
      (moments .standard ⟨"", 0, .degrees, .empty 3, []⟩ ⟨.degrees, .empty 1⟩ bookkeeping) =
        [⟨.degrees, ⟨"7-2*3", "1"⟩⟩, ⟨.degrees, ⟨"1*2", "2"⟩⟩, ⟨.degrees, ⟨"tan(45)", "1"⟩⟩,
          ⟨.radians, ⟨"cos(0)/3", "0.3333333333"⟩⟩] := by decide +kernel
  obtain ⟨hentries, hrecords⟩ := history_eq_records (.create hevaluator) hcreate hlimit bookkeeping
  rw [hkept] at hentries hrecords
  exact ⟨hcreate, hlimit, hkept, hentries, hrecords _ (by simp)⟩

end DeskCalculator.Session
