import DeskCalculator.Proofs.DisplayRoundTrip
import DeskCalculator.Proofs.EvaluatorRuns
import DeskCalculator.Session.Basic

/-!
# Pressing equals twice

The display can be evaluated again: `Display.standard_round_trip` collects what its text is worth, and draws
the consequence for sessions. After an evaluation that succeeded the line is the text of a value. Evaluating
this text either fails, and then the line stays, or gives a value with the same text.

A session evaluates through the cache of an evaluator that others may use as well, so this is about the
evaluators that can be `Reached`. Whatever was asked of them, their caches hold the programs of their keys.
-/

namespace DeskCalculator

/-! ## Evaluators in use -/

/-- What a look-up in a trusted cache returns is what `make` computes. -/
theorem RecencyCache.Holds.eq_of_fetch_eq_some {κ α : Type} [DecidableEq κ] {c : RecencyCache κ α}
    {make : κ → α} {k : κ} {a : α} (h : c.Holds make) (hfetch : (c.fetch make k).1 = some a) :
    a = make k := by
  unfold RecencyCache.fetch at hfetch
  split at hfetch
  next b hfound =>
    obtain rfl := Option.some.inj hfetch
    exact h (k, b) (mem_entries_of_find?_eq_some hfound)
  next =>
    split at hfetch
    · cases hfetch
    · exact (Option.some.inj hfetch).symm

namespace Evaluator

/-- The programs in the cache are those of their keys. -/
def Trusted (e : Evaluator) : Prop :=
  e.cache.Holds fun text => Program.compile (text.getD "")

/-- The evaluators that come of creating one and of using it, directly or in any session. -/
inductive Reached (s : Settings) : Evaluator → Prop where
  | create {size : Option Int} {choice : Option AngleMode.Choice} {e : Evaluator}
      (h : Evaluator.create s size choice = .ok e) : Reached s e
  | serve {e : Evaluator} (request : Request) (h : Reached s e) :
      Reached s (e.serve s.arithmetic request).2
  | act {e : Evaluator} (session : Session) (action : Session.Action) (h : Reached s e) :
      Reached s (session.act s e action).2.2

variable {s : Settings} {e : Evaluator}

/-- Compiling leaves an evaluator one to be trusted. -/
theorem Trusted.compile (h : e.Trusted) (text : Option String) : (e.compile text).2.Trusted := by
  rw [Trusted, compile_snd]
  exact RecencyCache.Holds.fetch h text

/-- Evaluating in a mode leaves an evaluator one to be trusted. -/
theorem Trusted.evaluateIn (h : e.Trusted) (a : Arithmetic) (mode : AngleMode) (text : Option String) :
    (e.evaluateIn a mode text).2.Trusted := by
  rcases evaluateIn_snd a e mode text with heq | heq <;> rw [heq]
  · exact h
  · exact h.compile text

/-- Serving a request leaves an evaluator one to be trusted. -/
theorem Trusted.serve (h : e.Trusted) (a : Arithmetic) (request : Request) :
    (e.serve a request).2.Trusted := by
  cases request with
  | evaluate choice text =>
    change (e.evaluate a choice text).2.Trusted
    rcases evaluate_snd a e choice text with heq | heq <;> rw [heq]
    · exact h
    · exact h.compile text
  | compile text => exact h.compile text
  | clear => exact RecencyCache.holds_clear _ _

/-- An outcome of a trusted evaluator is the outcome of the expression. -/
theorem Trusted.eq_of_evaluateIn_eq_ok {a : Arithmetic} {mode : AngleMode} {text : Option String}
    {outcome : Outcome} (h : e.Trusted) (houtcome : (e.evaluateIn a mode text).1 = .ok outcome) :
    outcome = Expression.evaluate a mode (text.getD "") := by
  unfold Evaluator.evaluateIn at houtcome
  unfold Expression.evaluate
  by_cases hblank : Text.allBlank (text.getD "") = true
  · rw [if_pos hblank] at houtcome ⊢
    exact (Except.ok.inj houtcome).symm
  · rw [if_neg hblank] at houtcome ⊢
    cases hfetch : e.cache.fetch (fun text => Program.compile (text.getD "")) text with
    | mk found cache =>
      unfold Evaluator.compile at houtcome
      rw [hfetch] at houtcome
      cases found with
      | none => cases houtcome
      | some program =>
        have hprogram := RecencyCache.Holds.eq_of_fetch_eq_some h (congrArg Prod.fst hfetch)
        rw [← Except.ok.inj houtcome, hprogram]

end Evaluator

namespace Session

variable {s : Settings} {session after : Session} {e e' : Evaluator}

/-- An action evaluates the line or leaves the evaluator alone. -/
theorem act_snd_snd (s : Settings) (session : Session) (e : Evaluator) (action : Action) :
    (session.act s e action).2.2 = e ∨
      (session.act s e action).2.2 =
        (e.evaluateIn s.arithmetic session.mode (some session.line)).2 := by
  cases action <;> simp only [act, withLine, addToMemory, equals] <;> grind

/-- Pressing equals leaves the line alone, or puts the text of the line's value in its place. -/
theorem line_equals (h : e.Trusted) (s : Settings) (session : Session) :
    (session.equals s e).2.1.line = session.line ∨
      ∃ value, Expression.evaluate s.arithmetic session.mode session.line = .ok value ∧
        s.display.text value = .ok (session.equals s e).2.1.line := by
  cases hrun : e.evaluateIn s.arithmetic session.mode (some session.line) with
  | mk result next =>
    cases result with
    | error fault => exact .inl (by simp only [equals, hrun])
    | ok outcome =>
      have houtcome := h.eq_of_evaluateIn_eq_ok (congrArg Prod.fst hrun)
      cases outcome with
      | error error => exact .inl (by simp only [equals, hrun])
      | ok value =>
        cases htext : s.display.text value with
        | error fault => exact .inl (by simp only [equals, hrun, htext])
        | ok text => exact .inr ⟨value, houtcome.symm, by simp only [equals, hrun, htext]⟩

/-- After an evaluation that succeeded the line is the text of the value. -/
theorem text_of_equals_eq_ok {value : Float} (h : session.equals s e = (.ok (.ok value), after, e')) :
    s.display.text value = .ok after.line ∧
      e' = (e.evaluateIn s.arithmetic session.mode (some session.line)).2 := by
  cases hrun : e.evaluateIn s.arithmetic session.mode (some session.line) with
  | mk result next =>
    cases result with
    | error fault => simp [equals, hrun] at h
    | ok outcome =>
      cases outcome with
      | error error => simp [equals, hrun] at h
      | ok x =>
        cases htext : s.display.text x with
        | error fault => simp [equals, hrun, htext] at h
        | ok text =>
          simp only [equals, hrun, htext, Prod.mk.injEq, Except.ok.injEq] at h
          obtain ⟨rfl, rfl, rfl⟩ := h
          exact ⟨htext, rfl⟩

/-- Pressing equals on the text of a value leaves it there. -/
theorem line_equals_of_text {v : Float} (h : e.Trusted) (harithmetic : s.arithmetic = .ieee)
    (hdisplay : s.display = .standard) (hline : Display.standard.text v = .ok session.line) :
    (session.equals s e).2.1.line = session.line := by
  rcases line_equals h s session with hsame | ⟨w, hvalue, htext⟩
  · exact hsame
  rw [harithmetic] at hvalue
  rw [hdisplay] at htext
  by_cases hv : ShownInFull v
  · obtain ⟨text, x, hv', hx, -, -, hx'⟩ := hv.exists_text session.mode
    obtain rfl := Except.ok.inj (hline.symm.trans hv')
    obtain rfl := Except.ok.inj (hvalue.symm.trans hx)
    exact Except.ok.inj (htext.symm.trans hx')
  · obtain ⟨text, error, hv', herror⟩ := exists_text_of_not_shownInFull hv .ieee session.mode
    obtain rfl := Except.ok.inj (hline.symm.trans hv')
    rw [herror] at hvalue
    cases hvalue

end Session

/-- Whatever was asked of an evaluator, its cache can be trusted. -/
theorem Evaluator.Reached.trusted {s : Settings} {e : Evaluator} (h : e.Reached s) : e.Trusted := by
  induction h with
  | create h =>
    unfold Evaluator.create at h
    split at h
    · cases h
      exact RecencyCache.holds_empty _ _
    · cases h
  | serve request _ ih => exact ih.serve s.arithmetic request
  | @act e session action _ ih =>
    rcases Session.act_snd_snd s session e action with heq | heq <;> rw [heq]
    · exact ih
    · exact ih.evaluateIn s.arithmetic session.mode (some session.line)

/-- What the display shows in full can be evaluated and is shown in the same way again; what it shows
otherwise has no value. So in every session a second press of equals leaves the line as the first one
made it. -/
theorem Display.standard_round_trip :
    (∀ (mode : AngleMode) (v : Float), ShownInFull v →
      ∃ text w, Display.standard.text v = .ok text ∧ Expression.evaluate .ieee mode text = .ok w ∧
        ((Binary64.whole? v).isSome = true → w = v ∨ v == 0 ∧ w = 0) ∧
        ((Binary64.whole? v).isSome = false → w = roundToPlaces 10 v) ∧
        Display.standard.text w = .ok text) ∧
    (∀ (mode : AngleMode) (v : Float), ¬ ShownInFull v →
      ∃ text error, Display.standard.text v = .ok text ∧
        Expression.evaluate .ieee mode text = .error error) ∧
    ∀ (s : Settings) (e e' : Evaluator) (session after : Session) (value : Float),
      s.arithmetic = .ieee → s.display = .standard → e.Reached s →
      session.equals s e = (.ok (.ok value), after, e') → (after.equals s e').2.1.line = after.line := by
  refine ⟨fun mode v h => h.exists_text mode,
    fun mode v h => exists_text_of_not_shownInFull h .ieee mode, ?_⟩
  intro s e e' session after value harithmetic hdisplay hreached hequals
  obtain ⟨htext, rfl⟩ := Session.text_of_equals_eq_ok hequals
  rw [hdisplay] at htext
  have htrusted := hreached.trusted.evaluateIn s.arithmetic session.mode (some session.line)
  exact Session.line_equals_of_text htrusted harithmetic hdisplay htext

/-- A session in which two thirds have been typed. -/
def Session.twoThirds : Session where
  line := "2/3"
  memory := 0
  mode := .degrees
  history := .empty 60
  draws := []

/-- Two thirds, shown in full and stable under equals, and a trillion, whose display has no value. -/
theorem Display.standard_round_trip_twoThirds :
    (∃ w, Expression.evaluate .ieee .degrees "0.6666666667" = .ok w ∧
      w = roundToPlaces 10 0.6666666666666666 ∧ Display.standard.text w = .ok "0.6666666667") ∧
    (∃ error, Expression.evaluate .ieee .degrees "1.00000000e+12" = .error error) ∧
    (Session.twoThirds.equals .standard ⟨.degrees, .empty 256⟩).2.1.line = "0.6666666667" ∧
    ((Session.twoThirds.equals .standard ⟨.degrees, .empty 256⟩).2.1.equals .standard
      (Session.twoThirds.equals .standard ⟨.degrees, .empty 256⟩).2.2).2.1.line = "0.6666666667" := by
  obtain ⟨hshown, hother, hsession⟩ := Display.standard_round_trip
  refine ⟨?_, ?_, ?_⟩
  · obtain ⟨text, w, htext, hvalue, -, hfraction, hagain⟩ :=
      hshown .degrees 0.6666666666666666 (by decide +kernel)
    have hknown : Display.standard.text 0.6666666666666666 = .ok "0.6666666667" := by decide +kernel
    obtain rfl := Except.ok.inj (hknown.symm.trans htext)
    exact ⟨w, hvalue, hfraction (by decide +kernel), hagain⟩
  · obtain ⟨text, error, htext, herror⟩ := hother .degrees 1e12 (by decide +kernel)
    have hknown : Display.standard.text 1e12 = .ok "1.00000000e+12" := by decide +kernel
    obtain rfl := Except.ok.inj (hknown.symm.trans htext)
    exact ⟨error, herror⟩
  · have hfirst : (Session.twoThirds.equals .standard ⟨.degrees, .empty 256⟩).1 =
        .ok (.ok 0.6666666666666666) := by decide +kernel
    have hline : (Session.twoThirds.equals .standard ⟨.degrees, .empty 256⟩).2.1.line =
        "0.6666666667" := by decide +kernel
    have hcreate : Evaluator.create .standard none none = .ok ⟨.degrees, .empty 256⟩ := by rfl
    exact ⟨hline, (hsession .standard _ _ _ _ _ rfl rfl (.create hcreate)
      (Prod.ext hfirst rfl)).trans hline⟩

end DeskCalculator
