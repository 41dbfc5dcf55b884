import DeskCalculator.Evaluator

/-!
# An evaluator answers as if it kept nothing

An evaluator serves requests one after the other and carries its cache of programs from each to the next.
`serveAll_eq_answers` shows that nothing of this can be seen from the replies: each one is what the request
alone determines, together with the mode of the evaluator. The cache may be of any size that is not
negative. A cache of size zero drops each program right after it was compiled, and the reply is the same.

The invariant is `Coherent`: every entry of the cache holds the program of its key. A look-up either returns
such an entry or adds a new one and drops old ones, so it keeps the invariant and returns the program
of the key in both cases.
-/

namespace DeskCalculator

/-! ## Caches whose entries can be trusted -/

namespace RecencyCache

variable {κ α : Type} {c : RecencyCache κ α} {make : κ → α}

/-- Every entry is what `make` computes for its key. -/
def Holds (c : RecencyCache κ α) (make : κ → α) : Prop :=
  ∀ entry ∈ c.entries, entry.2 = make entry.1

/-- An empty cache holds nothing but what was made. -/
theorem holds_empty (capacity : Int) (make : κ → α) : (empty capacity).Holds make := by
  intro entry hentry
  simp [empty] at hentry

/-- A cleared cache holds nothing but what was made. -/
theorem holds_clear (c : RecencyCache κ α) (make : κ → α) : c.clear.Holds make :=
  holds_empty _ _

/-- What is left after trimming was there before. -/
theorem mem_of_mem_trim {capacity : Int} {entries : List (κ × α)} {entry : κ × α}
    (h : entry ∈ trim capacity entries) : entry ∈ entries :=
  List.mem_of_mem_drop h

variable [DecidableEq κ]

/-- What is found is an entry. -/
theorem mem_entries_of_find?_eq_some {k : κ} {a : α} (h : c.find? k = some a) :
    (k, a) ∈ c.entries := by
  obtain ⟨before, after, hsplit, -⟩ := List.lookup_eq_some_iff.mp h
  rw [hsplit]
  simp

/-- A look-up adds at most the entry that `make` computes for the key. -/
theorem mem_entries_fetch {k : κ} {entry : κ × α} (h : entry ∈ (c.fetch make k).2.entries) :
    entry ∈ c.entries ∨ entry = (k, make k) := by
  unfold fetch at h
  split at h
  next a hfound =>
    rw [List.mem_append, List.mem_filter, List.mem_singleton] at h
    obtain ⟨hold, -⟩ | rfl := h
    · exact .inl hold
    -- the entry that was found is moved to the end, and it was there before
    · exact .inl (mem_entries_of_find?_eq_some hfound)
  next =>
    split at h
    · simp at h
    · have hmem := mem_of_mem_trim h
      rw [List.mem_append, List.mem_singleton] at hmem
      exact hmem

/-- Fetching adds nothing but what is made. -/
theorem Holds.fetch (h : c.Holds make) (k : κ) : (c.fetch make k).2.Holds make := by
  intro entry hentry
  obtain hold | rfl := mem_entries_fetch hentry
  · exact h entry hold
  · rfl

/-- A trusted cache returns what `make` computes, found or not. -/
theorem Holds.fetch_fst (h : c.Holds make) (hcapacity : 0 ≤ c.capacity) (k : κ) :
    (c.fetch make k).1 = some (make k) := by
  unfold RecencyCache.fetch
  split
  next a hfound =>
    have ha : a = make k := h (k, a) (mem_entries_of_find?_eq_some hfound)
    rw [ha]
  next =>
    rw [if_neg (by omega)]

end RecencyCache

/-! ## Coherent evaluators -/

namespace Evaluator

variable {e : Evaluator}

/-- The cache can hold entries, and every entry is the program of its key. -/
structure Coherent (e : Evaluator) : Prop where
  capacity_nonneg : 0 ≤ e.cache.capacity
  holds : e.cache.Holds fun text => Program.compile (text.getD "")

/-- A new evaluator has the mode that is asked for, or else the default one. -/
theorem create_of_mode?_eq {s : Settings} {size : Option Int} {choice : Option AngleMode.Choice}
    {mode : AngleMode} (h : (choice.getD s.defaultMode).mode? = some mode) :
    create s size choice = .ok ⟨mode, .empty (size.getD s.cacheSize)⟩ := by
  simp only [create, AngleMode.Choice.mode, h]

/-- An evaluator that was created with a capacity of at least zero is coherent. -/
theorem coherent_of_create {s : Settings} {size : Option Int} {choice : Option AngleMode.Choice}
    (h : create s size choice = .ok e) (hsize : 0 ≤ size.getD s.cacheSize) : e.Coherent := by
  unfold create at h
  split at h
  · cases h
    exact ⟨hsize, RecencyCache.holds_empty _ _⟩
  · cases h

/-- Clearing the cache keeps an evaluator coherent. -/
theorem Coherent.clear (h : e.Coherent) : e.clear.Coherent where
  capacity_nonneg := h.capacity_nonneg
  holds := RecencyCache.holds_clear _ _

/-- Compiling gives the program of the text, cached or not. -/
theorem Coherent.compile_fst (h : e.Coherent) (text : Option String) :
    (e.compile text).1 = .ok (Program.compile (text.getD "")) := by
  have hfetch := h.holds.fetch_fst h.capacity_nonneg text
  unfold Evaluator.compile
  split
  next program cache heq =>
    rw [heq] at hfetch
    cases hfetch
    rfl
  next cache heq =>
    rw [heq] at hfetch
    cases hfetch

/-- Compiling touches the cache only, and there it is one look-up. -/
theorem compile_snd (e : Evaluator) (text : Option String) :
    (e.compile text).2 =
      { e with cache := (e.cache.fetch (fun text => Program.compile (text.getD "")) text).2 } := by
  unfold compile
  split
  next heq => rw [heq]
  next heq => rw [heq]

/-- Compiling keeps an evaluator coherent. -/
theorem Coherent.compile_snd (h : e.Coherent) (text : Option String) :
    (e.compile text).2.Coherent := by
  rw [Evaluator.compile_snd]
  refine ⟨?_, h.holds.fetch text⟩
  rw [RecencyCache.capacity_fetch]
  exact h.capacity_nonneg

/-- An evaluation leaves the evaluator alone or compiles the expression. -/
theorem evaluateIn_snd (a : Arithmetic) (e : Evaluator) (mode : AngleMode) (text : Option String) :
    (e.evaluateIn a mode text).2 = e ∨ (e.evaluateIn a mode text).2 = (e.compile text).2 := by
  unfold evaluateIn
  by_cases hblank : Text.allBlank (text.getD "") = true
  · left
    rw [if_pos hblank]
  · right
    rw [if_neg hblank]
    obtain ⟨program | fault, e'⟩ := e.compile text <;> rfl

/-- Evaluating either leaves the evaluator as it is or does to it what compiling does. -/
theorem evaluate_snd (a : Arithmetic) (e : Evaluator) (choice : Option AngleMode.Choice)
    (text : Option String) :
    (e.evaluate a choice text).2 = e ∨ (e.evaluate a choice text).2 = (e.compile text).2 := by
  unfold evaluate
  cases e.modeFor choice with
  | error fault => exact .inl rfl
  | ok mode => exact evaluateIn_snd a e mode text

/-- Evaluating keeps an evaluator coherent. -/
theorem Coherent.evaluate_snd (h : e.Coherent) (a : Arithmetic) (choice : Option AngleMode.Choice)
    (text : Option String) : (e.evaluate a choice text).2.Coherent := by
  obtain heq | heq := Evaluator.evaluate_snd a e choice text
  · rw [heq]
    exact h
  · rw [heq]
    exact h.compile_snd text

/-- Evaluating in a mode gives the outcome of the expression, whatever is cached. -/
theorem Coherent.evaluateIn_fst (h : e.Coherent) (a : Arithmetic) (mode : AngleMode)
    (text : Option String) :
    (e.evaluateIn a mode text).1 = .ok (Expression.evaluate a mode (text.getD "")) := by
  have hcompile := h.compile_fst text
  unfold evaluateIn Expression.evaluate
  by_cases hblank : Text.allBlank (text.getD "") = true
  · rw [if_pos hblank, if_pos hblank]
  · rw [if_neg hblank, if_neg hblank]
    split
    next program e' heq =>
      rw [heq] at hcompile
      cases hcompile
      rfl
    next fault e' heq =>
      rw [heq] at hcompile
      cases hcompile

/-- A coherent evaluator gives an expression its outcome in the mode that is asked for. -/
theorem Coherent.evaluate_fst (h : e.Coherent) (a : Arithmetic) {choice : Option AngleMode.Choice}
    {mode : AngleMode} (hmode : e.modeFor choice = .ok mode) (text : Option String) :
    (e.evaluate a choice text).1 = .ok (Expression.evaluate a mode (text.getD "")) := by
  simp only [evaluate, hmode]
  exact h.evaluateIn_fst a mode text

/-! ## Requests and runs -/

/-- What an evaluator can be asked for. -/
inductive Request where
  | evaluate (choice : Option AngleMode.Choice) (text : Option String)
  | compile (text : Option String)
  | clear

/-- What comes back. -/
inductive Reply where
  | outcome (result : Except Fault Outcome)
  | program (result : Except Fault Program)
  | done

/-- The reply to a request, and the evaluator afterwards. -/
def serve (a : Arithmetic) (e : Evaluator) : Request → Reply × Evaluator
  | .evaluate choice text => (.outcome (e.evaluate a choice text).1, (e.evaluate a choice text).2)
  | .compile text => (.program (e.compile text).1, (e.compile text).2)
  | .clear => (.done, e.clear)

/-- The replies to a run of requests, and the evaluator at its end. -/
def serveAll (a : Arithmetic) (e : Evaluator) : List Request → List Reply × Evaluator
  | [] => ([], e)
  | request :: rest =>
    let (reply, e) := e.serve a request
    let (replies, e) := e.serveAll a rest
    (reply :: replies, e)

/-- The first answer is the one to the first request, and the others are given from there. -/
@[simp] theorem serveAll_cons_fst (a : Arithmetic) (e : Evaluator) (request : Request)
    (rest : List Request) :
    (e.serveAll a (request :: rest)).1 =
      (e.serve a request).1 :: ((e.serve a request).2.serveAll a rest).1 := rfl

/-- The reply to a request that an evaluator of the given mode would send without a cache. -/
def Request.answer (a : Arithmetic) (own : AngleMode) : Request → Reply
  | .evaluate choice text =>
    .outcome ((choice.elim (.ok own) AngleMode.Choice.mode).map fun mode =>
      Expression.evaluate a mode (text.getD ""))
  | .compile text => .program (.ok (Program.compile (text.getD "")))
  | .clear => .done

/-- No request changes the mode. -/
theorem mode_serve (a : Arithmetic) (e : Evaluator) (request : Request) :
    (e.serve a request).2.mode = e.mode := by
  cases request with
  | evaluate choice text =>
    obtain heq | heq := evaluate_snd a e choice text
    · exact congrArg mode heq
    · refine (congrArg mode heq).trans ?_
      rw [compile_snd]
  | compile text =>
    show (e.compile text).2.mode = e.mode
    rw [compile_snd]
  | clear => rfl

/-- Serving a request keeps an evaluator coherent. -/
theorem Coherent.serve (h : e.Coherent) (a : Arithmetic) (request : Request) :
    (e.serve a request).2.Coherent := by
  cases request with
  | evaluate choice text => exact h.evaluate_snd a choice text
  | compile text => exact h.compile_snd text
  | clear => exact h.clear

/-- The answer to a request depends on the request and the mode alone. -/
theorem Coherent.serve_fst (h : e.Coherent) (a : Arithmetic) (request : Request) :
    (e.serve a request).1 = request.answer a e.mode := by
  cases request with
  | evaluate choice text =>
    show Reply.outcome (e.evaluate a choice text).1 = _
    unfold Evaluator.evaluate modeFor Request.answer
    cases choice with
    | none => exact congrArg Reply.outcome (h.evaluateIn_fst a e.mode text)
    | some choice =>
      -- an unknown mode is refused before the expression is looked at
      cases hmode : choice.mode with
      | ok mode => simp [hmode, h.evaluateIn_fst a mode text, Except.map]
      | error fault => simp [hmode, Except.map]
  | compile text => exact congrArg Reply.program (h.compile_fst text)
  | clear => rfl

/-- A run from a coherent evaluator ends in one, and the cache shows in none of its replies. -/
theorem Coherent.serveAll (h : e.Coherent) (a : Arithmetic) (requests : List Request) :
    (e.serveAll a requests).1 = requests.map (Request.answer a e.mode) ∧
      (e.serveAll a requests).2.Coherent ∧ (e.serveAll a requests).2.mode = e.mode := by
  induction requests generalizing e with
  | nil => exact ⟨rfl, h, rfl⟩
  | cons request rest ih =>
    obtain ⟨hreplies, hcoherent, hmode⟩ := ih (h.serve a request)
    rw [mode_serve] at hreplies hmode
    refine ⟨?_, hcoherent, hmode⟩
    rw [serveAll_cons_fst, h.serve_fst, hreplies, List.map_cons]

/-- An evaluator of any size that is not negative answers every run of requests as if it had no cache, and
what is in its cache at the end of the run are the programs of their keys. -/
theorem serveAll_eq_answers {s : Settings} {size : Option Int} {choice : Option AngleMode.Choice}
    (h : create s size choice = .ok e) (hsize : 0 ≤ size.getD s.cacheSize) (a : Arithmetic)
    (requests : List Request) :
    (e.serveAll a requests).1 = requests.map (Request.answer a e.mode) ∧
      ∀ entry ∈ (e.serveAll a requests).2.cache.entries,
        entry.2 = Program.compile (entry.1.getD "") := by
  obtain ⟨hreplies, hcoherent, -⟩ := (coherent_of_create h hsize).serveAll a requests
  exact ⟨hreplies, hcoherent.holds⟩

/-- Requests in which two programs evict each other from a cache with room for one: a division by zero in
both modes, a sum in between, a blank expression and an unknown mode. -/
def evicting : List Request :=
  [.evaluate none (some "1/0"), .compile (some "2+sin(3)"),
    .evaluate (some (.name "deg")) (some "1/0"), .evaluate none (some " "),
    .evaluate (some (.name "grad")) (some "1/0"), .evaluate none (some "2+sin(3)")]

/-- Requests to an evaluator with room for one program, which drops it again and again. -/
theorem serveAll_evicting :
    create .standard (some 1) (some (.name "rad")) = .ok ⟨.radians, .empty 1⟩ ∧
      (0 : Int) ≤ (some 1).getD Settings.standard.cacheSize ∧
      (serveAll .ieee ⟨.radians, .empty 1⟩ evicting).1 =
        evicting.map (Request.answer .ieee .radians) ∧
      (∀ entry ∈ (serveAll .ieee ⟨.radians, .empty 1⟩ evicting).2.cache.entries,
        entry.2 = Program.compile (entry.1.getD "")) ∧
      (serveAll .ieee ⟨.radians, .empty 1⟩ evicting).2.cache.keys = [some "2+sin(3)"] := by
  have hcreate : create .standard (some 1) (some (.name "rad")) = .ok ⟨.radians, .empty 1⟩ := by rfl
  have hsize : (0 : Int) ≤ (some 1).getD Settings.standard.cacheSize := by decide
  obtain ⟨hreplies, hentries⟩ := serveAll_eq_answers hcreate hsize .ieee evicting
  exact ⟨hcreate, hsize, hreplies, hentries, by decide +kernel⟩

end Evaluator

end DeskCalculator
