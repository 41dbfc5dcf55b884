import DeskCalculator.Proofs.HistoryRecord
import DeskCalculator.Proofs.Sums

/-!
# The memory register

What the memory keys add to the memory or take from it is never NaN: a display that shows no number counts
as zero (`isNaN_displayValue`). The memory itself is not guarded in that way. It may be infinite, because
an infinite display is a number or because a sum is too large, and then an infinite display can cancel it
(`Moment.Collides`). There is no other way: the memory is NaN exactly if such a moment came since the
memory was last cleared (`Session.isNaN_memory_iff_collides`).
-/

namespace DeskCalculator.Session

open Binary64

variable {s : Settings} {session : Session} {e : Evaluator}

/-- The number on the display. -/
def shown (s : Settings) (session : Session) : Float :=
  displayValue s (Expression.evaluate s.arithmetic session.mode session.line)

/-- The number on the display is never NaN. -/
theorem isNaN_displayValue (s : Settings) (outcome : Outcome) :
    (displayValue s outcome).isNaN = false := by
  have hzero : (0 : Float).isNaN = false := by decide
  rw [displayValue]
  cases displayText s outcome with
  | error fault => exact hzero
  | ok text =>
    simp only
    split
    · exact hzero
    next hvalue => exact Bool.eq_false_of_not_eq_true hvalue

/-- An infinite memory meets an infinite display that cancels it. -/
inductive Moment.Collides (s : Settings) (m : Moment) : Prop
  | add {negative : Bool} {result : Float} (action_eq : m.action = .memoryAdd)
      (answer_eq : m.answer = .ok (.memory result)) (memory_eq : ofFloat m.before.memory = infinite negative)
      (shown_eq : ofFloat (m.before.shown s) = infinite !negative)
  | subtract {negative : Bool} {result : Float} (action_eq : m.action = .memorySubtract)
      (answer_eq : m.answer = .ok (.memory result)) (memory_eq : ofFloat m.before.memory = infinite negative)
      (shown_eq : ofFloat (m.before.shown s) = infinite negative)

/-! ## One step -/

/-- Only the three memory keys change the memory. -/
theorem memory_act_of_ne {action : Action} (hclear : action ≠ .memoryClear) (hadd : action ≠ .memoryAdd)
    (hsubtract : action ≠ .memorySubtract) : (session.act s e action).2.1.memory = session.memory := by
  cases action <;> simp only [act, withLine, equals] <;> grind

/-- A memory key is refused and changes nothing, or combines the memory with the number on the display. -/
theorem addToMemory_cases (h : e.Trusted) (s : Settings) (combine : Float → Float → Float)
    (session : Session) :
    (∃ fault, (addToMemory s combine session e).1 = .error fault ∧
        (addToMemory s combine session e).2.1 = session) ∨
      (addToMemory s combine session e).1 = .ok (.memory (combine session.memory (session.shown s))) ∧
        (addToMemory s combine session e).2.1.memory = combine session.memory (session.shown s) := by
  obtain ⟨⟨reply, next⟩, hrun⟩ :
      ∃ run, e.evaluateIn s.arithmetic session.mode (some session.line) = run := ⟨_, rfl⟩
  cases reply with
  | error fault => exact .inl ⟨fault, by simp only [addToMemory, hrun, and_self]⟩
  | ok outcome =>
    obtain rfl := h.eq_of_evaluateIn_eq_ok (congrArg Prod.fst hrun)
    exact .inr (by simp only [addToMemory, hrun, shown, Option.getD_some, and_self])

/-- A memory key leaves NaN in the memory exactly if it was there or if infinities cancel. -/
theorem isNaN_addToMemory (h : e.Trusted) {combine : Float → Float → Float} (cancelling : Bool → Bool)
    (hcombine : ∀ x y, (combine x y).isNaN = true ↔ x.isNaN = true ∨ y.isNaN = true ∨
      ∃ negative, ofFloat x = infinite negative ∧ ofFloat y = infinite (cancelling negative)) :
    (addToMemory s combine session e).2.1.memory.isNaN = true ↔
      session.memory.isNaN = true ∨
        ∃ result negative, (addToMemory s combine session e).1 = .ok (.memory result) ∧
          ofFloat session.memory = infinite negative ∧
          ofFloat (session.shown s) = infinite (cancelling negative) := by
  have hshown : ¬ (session.shown s).isNaN = true := by
    rw [shown, isNaN_displayValue]
    exact Bool.false_ne_true
  obtain ⟨fault, hanswer, hafter⟩ | ⟨hanswer, hmemory⟩ := addToMemory_cases h s combine session
  · rw [hafter, hanswer]
    refine ⟨.inl, ?_⟩
    rintro (hnan | ⟨result, negative, hresult, -⟩)
    · exact hnan
    · cases hresult
  · rw [hmemory, hcombine, or_iff_right hshown, hanswer]
    exact or_congr_right ⟨fun ⟨negative, hboth⟩ => ⟨_, negative, rfl, hboth⟩,
      fun ⟨_, negative, _, hboth⟩ => ⟨negative, hboth⟩⟩

/-- An action leaves NaN in the memory exactly if it was there and is not cleared, or if infinities
cancel. -/
theorem isNaN_memory_act (h : e.Trusted) (action : Action) :
    (session.act s e action).2.1.memory.isNaN = true ↔
      action ≠ .memoryClear ∧
        (session.memory.isNaN = true ∨ (session.moment s e action).Collides s) := by
  by_cases hclear : action = .memoryClear
  · subst hclear
    have hzero : ¬ (0 : Float).isNaN = true := by decide
    exact iff_of_false hzero fun hboth => hboth.1 rfl
  rw [and_iff_right hclear]
  by_cases hadd : action = .memoryAdd
  · subst hadd
    refine (isNaN_addToMemory h (!·) isNaN_add_iff).trans (or_congr_right ⟨?_, ?_⟩)
    · rintro ⟨result, negative, hanswer, hmemory, hshown⟩
      exact .add rfl hanswer hmemory hshown
    · rintro (⟨-, hanswer, hmemory, hshown⟩ | ⟨haction, -⟩)
      · exact ⟨_, _, hanswer, hmemory, hshown⟩
      · cases haction
  by_cases hsubtract : action = .memorySubtract
  · subst hsubtract
    refine (isNaN_addToMemory h id isNaN_sub_iff).trans (or_congr_right ⟨?_, ?_⟩)
    · rintro ⟨result, negative, hanswer, hmemory, hshown⟩
      exact .subtract rfl hanswer hmemory hshown
    · rintro (⟨haction, -⟩ | ⟨-, hanswer, hmemory, hshown⟩)
      · cases haction
      · exact ⟨_, _, hanswer, hmemory, hshown⟩
  rw [memory_act_of_ne hclear hadd hsubtract]
  refine (or_iff_left ?_).symm
  rintro (⟨haction, -⟩ | ⟨haction, -⟩)
  · exact hadd haction
  · exact hsubtract haction

/-! ## Runs -/

/-- The moments since the memory was last cleared. -/
def sinceMemoryClear (run : List Moment) : List Moment :=
  run.rtakeWhile (·.action ≠ .memoryClear)

/-- One more moment is one more since the memory was cleared, unless it clears it. -/
theorem sinceMemoryClear_concat (run : List Moment) (m : Moment) :
    sinceMemoryClear (run ++ [m]) =
      if m.action = .memoryClear then [] else sinceMemoryClear run ++ [m] := by
  simp only [sinceMemoryClear, List.rtakeWhile_concat, decide_eq_true_eq, ite_not]

/-- With a number in the memory to begin with, there is NaN in it after a run exactly if infinities
cancelled since it was last cleared. -/
theorem isNaN_memory_actAll (h : e.Reached s) (hmemory : session.memory.isNaN = false)
    (actions : List Action) :
    (actAll s session e actions).2.1.memory.isNaN = true ↔
      ∃ m ∈ sinceMemoryClear (moments s session e actions), m.Collides s := by
  induction actions using List.reverseRecOn with
  | nil =>
    refine iff_of_false (fun hnan => ?_) (by rintro ⟨m, hm, -⟩; cases hm)
    exact Bool.false_ne_true (hmemory.symm.trans hnan)
  | append_singleton actions action ih =>
    rw [actAll_concat_snd, isNaN_memory_act (reached_actAll h session actions).trusted, ih,
      moments_concat, sinceMemoryClear_concat]
    by_cases hclear : action = .memoryClear
    · rw [if_pos (show (moment _ _ _ action).action = _ from hclear)]
      simp [hclear]
    · rw [if_neg (show ¬ (moment _ _ _ action).action = _ from hclear), and_iff_right hclear]
      simp [or_and_right, exists_or]

/-- A new session has nothing in its memory. -/
theorem memory_of_create {choice : Option AngleMode.Choice} {historyLimit : Option Int}
    {draws : List Float} (h : create s e choice historyLimit draws = .ok session) :
    session.memory = 0 := by
  unfold create at h
  cases hmode : e.modeFor choice with
  | error fault => simp [hmode, bind, Except.bind] at h
  | ok mode =>
    cases hhistory : History.create (historyLimit.getD s.historyLimit) with
    | error fault => simp [hmode, hhistory, bind, Except.bind] at h
    | ok history =>
      simp only [hmode, hhistory, bind, Except.bind, pure, Except.pure, Except.ok.injEq] at h
      rw [← h]

/-- The memory of a session is NaN exactly if an infinite display cancelled an infinite memory since the
memory was last cleared. -/
theorem isNaN_memory_iff_collides {choice : Option AngleMode.Choice} {historyLimit : Option Int}
    {draws : List Float} (h : e.Reached s)
    (hcreate : create s e choice historyLimit draws = .ok session) (actions : List Action) :
    (actAll s session e actions).2.1.memory.isNaN = true ↔
      ∃ m ∈ sinceMemoryClear (moments s session e actions), m.Collides s :=
  isNaN_memory_actAll h (by rw [memory_of_create hcreate]; decide) actions

/-- An infinite display, added to the memory and taken away from it. -/
def cancelling : List Action :=
  [.input "1/0", .memoryAdd, .memorySubtract]

/-- An infinite display taken away from itself collides. Once the memory is cleared, it may be taken away. -/
theorem isNaN_memory_iff_collides_cancelling :
    create .standard ⟨.degrees, .empty 1⟩ none none [0.5] = .ok fresh ∧
      (actAll .standard fresh ⟨.degrees, .empty 1⟩ (cancelling ++ [.clear, .memoryAdd])).2.1.memory.isNaN =
        true ∧
      (∃ m ∈ sinceMemoryClear (moments .standard fresh ⟨.degrees, .empty 1⟩
        (cancelling ++ [.clear, .memoryAdd])), m.Collides .standard) ∧
      ¬ ∃ m ∈ sinceMemoryClear (moments .standard fresh ⟨.degrees, .empty 1⟩
        (cancelling ++ [.memoryClear, .memorySubtract])), m.Collides .standard := by
  have hevaluator : Evaluator.create .standard (some 1) none = .ok ⟨.degrees, .empty 1⟩ :=
    Evaluator.create_of_mode?_eq (by decide +kernel)
  have hcreate : create .standard ⟨.degrees, .empty 1⟩ none none [0.5] = .ok fresh := by rfl
  have hkept : (actAll .standard fresh ⟨.degrees, .empty 1⟩
      (cancelling ++ [.clear, .memoryAdd])).2.1.memory.isNaN = true := by decide +kernel
  have hcleared : ¬ (actAll .standard fresh ⟨.degrees, .empty 1⟩
      (cancelling ++ [.memoryClear, .memorySubtract])).2.1.memory.isNaN = true := by decide +kernel
  exact ⟨hcreate, hkept, (isNaN_memory_iff_collides (.create hevaluator) hcreate _).1 hkept,
    fun hcollides => hcleared ((isNaN_memory_iff_collides (.create hevaluator) hcreate _).2 hcollides)⟩

/-- Not every memory is a number: infinity less infinity is none. -/
theorem memory_infinity_less_infinity :
    create .standard ⟨.degrees, .empty 1⟩ none none [0.5] = .ok fresh ∧
      (actAll .standard fresh ⟨.degrees, .empty 1⟩
        [.input "1/0", .memoryAdd, .memorySubtract]).2.1.memory.isNaN = true :=
  ⟨by rfl, by decide +kernel⟩

end DeskCalculator.Session
