import DeskCalculator.Proofs.EvaluatorRuns
import Mathlib

/-!
# What an evaluator keeps, and when it counts a hit

Of a run of requests only the expressions that were compiled matter to the cache, and of these only those
since it was last emptied: `compiledSinceClear`. A cache for `n` programs holds the last `n` different ones
of them, in the order of their last use, and a call is a hit exactly if fewer than `n` other expressions were
used since the same one was used before. `serveAll_recency` says this of every run.

The list of all expressions used, each at its last occurrence, is Mathlib's `List.dedup`. `latest` is its end,
and `latest_concat` shows that it changes with one more use as the entries of the cache do. That a key is
among the latest is the same as being `Recent` (`mem_latest_iff`), which looks at the uses themselves and
not at any cache.
-/

namespace DeskCalculator

/-! ## The latest different keys -/

section Latest

variable {κ : Type} [DecidableEq κ]

/-- The last `n` different keys in the order of their last use. -/
def latest (n : Nat) (used : List κ) : List κ :=
  used.dedup.rtake n

/-- The key was used, and since then fewer than `n` other ones. -/
def Recent (n : Nat) (used : List κ) (k : κ) : Prop :=
  k ∈ used ∧ (used.rtakeWhile (· ≠ k)).dedup.length < n

instance (n : Nat) (used : List κ) (k : κ) : Decidable (Recent n used k) :=
  inferInstanceAs (Decidable (k ∈ used ∧ (used.rtakeWhile (· ≠ k)).dedup.length < n))

omit [DecidableEq κ] in
/-- A list that is short enough is its own end. -/
theorem rtake_of_length_le {n : Nat} {l : List κ} (h : l.length ≤ n) : l.rtake n = l := by
  rw [List.rtake, Nat.sub_eq_zero_of_le h, List.drop_zero]

omit [DecidableEq κ] in
/-- The end of two lists is that of the second one, if it is long enough. -/
theorem rtake_append_of_le {n : Nat} (l : List κ) {m : List κ} (h : n ≤ m.length) :
    (l ++ m).rtake n = m.rtake n := by
  rw [List.rtake, List.rtake, List.length_append, Nat.add_sub_assoc h, List.drop_append,
    List.drop_eq_nil_of_le (Nat.le_add_right _ _), List.nil_append, Nat.add_sub_cancel_left]

/-- One more use moves the key to the end. -/
theorem dedup_concat (used : List κ) (k : κ) :
    (used ++ [k]).dedup = used.dedup.filter (· ≠ k) ++ [k] := by
  induction used with
  | nil => simp
  | cons j used ih =>
    rw [List.cons_append, List.dedup_cons, List.dedup_cons, ih]
    by_cases hj : j ∈ used
    · rw [if_pos (List.mem_append_left _ hj), if_pos hj]
    · by_cases hjk : j = k
      · rw [if_pos (by simp [hjk]), if_neg hj, List.filter_cons_of_neg (by simp [hjk])]
      · rw [if_neg (by simp [hj, hjk]), if_neg hj, List.filter_cons_of_pos (by simp [hjk]),
          List.cons_append]

/-- One more use moves the key to the end of the latest ones, or adds it there and drops the first one if
they are too many. -/
theorem latest_concat (n : Nat) (used : List κ) (k : κ) :
    latest n (used ++ [k]) =
      if k ∈ latest n used then (latest n used).filter (· ≠ k) ++ [k]
      else (latest n used ++ [k]).rtake n := by
  obtain ⟨older, hsplit⟩ : ∃ older, used.dedup = older ++ latest n used :=
    ⟨_, (List.take_append_drop _ _).symm⟩
  have hnodup := used.nodup_dedup
  -- either nothing is older than the latest ones, or they are `n`
  have hfull : older = [] ∨ (latest n used).length = n := by
    have hlength := congrArg List.length hsplit
    rw [List.length_append] at hlength
    by_cases hle : used.dedup.length ≤ n
    · left
      rw [latest, rtake_of_length_le hle] at hlength
      exact List.length_eq_zero_iff.1 (by omega)
    · right
      rw [latest, List.rtake, List.length_drop]
      omega
  have hle : (latest n used).length ≤ n := by
    rw [latest, List.rtake, List.length_drop]
    omega
  rw [hsplit, List.nodup_append] at hnodup
  obtain ⟨-, hlatest, hdisjoint⟩ := hnodup
  have hmove : latest n (used ++ [k]) =
      (older.filter (· ≠ k) ++ ((latest n used).filter (· ≠ k) ++ [k])).rtake n := by
    rw [latest, dedup_concat, hsplit, List.filter_append, List.append_assoc]
  rw [hmove]
  split
  next hmem =>
    have herase : (latest n used).filter (· ≠ k) = (latest n used).erase k := by
      rw [hlatest.erase_eq_filter]
      exact List.filter_congr fun j _ => by by_cases hj : j = k <;> simp [hj]
    have hlength : ((latest n used).filter (· ≠ k) ++ [k]).length = (latest n used).length := by
      have hpos := List.length_pos_of_mem hmem
      rw [herase, List.length_append, List.length_erase_of_mem hmem, List.length_singleton]
      omega
    obtain rfl | hn := hfull
    · exact rtake_of_length_le (by rw [List.filter_nil, List.nil_append, hlength]; exact hle)
    · rw [rtake_append_of_le _ (by rw [hlength, hn])]
      exact rtake_of_length_le (by rw [hlength, hn])
  next hmem =>
    have hkeep : (latest n used).filter (· ≠ k) = latest n used :=
      List.filter_eq_self.2 fun j hj => decide_eq_true fun hjk => hmem (hjk ▸ hj)
    rw [hkeep]
    obtain rfl | hn := hfull
    · rfl
    · exact rtake_append_of_le _ (by rw [List.length_append, hn]; exact Nat.le_add_right _ _)

/-- What was used since the last use of a key stands behind that use. -/
theorem eq_append_rtakeWhile {used : List κ} {k : κ} (hk : k ∈ used) :
    ∃ before, used = before ++ k :: used.rtakeWhile (· ≠ k) := by
  induction used using List.reverseRecOn with
  | nil => simp at hk
  | append_singleton used j ih =>
    by_cases hj : j = k
    · refine ⟨used, ?_⟩
      rw [List.rtakeWhile_concat_neg _ _ _ (by simp [hj]), hj]
    · obtain ⟨before, hsplit⟩ := ih (by simpa [Ne.symm hj] using hk)
      refine ⟨before, ?_⟩
      rw [List.rtakeWhile_concat_pos _ _ _ (by simp [hj]), ← List.cons_append,
        ← List.append_assoc, ← hsplit]

/-- A key among the latest ones is one that was used recently. -/
theorem mem_latest_iff (n : Nat) (used : List κ) (k : κ) :
    k ∈ latest n used ↔ Recent n used k := by
  by_cases hk : k ∈ used
  · obtain ⟨before, hsplit⟩ := eq_append_rtakeWhile hk
    have hsince : k ∉ used.rtakeWhile (· ≠ k) := by
      intro hmem
      have hne := List.mem_rtakeWhile_imp hmem
      simp at hne
    -- so in the list of all keys the ones used since are those behind `k`
    obtain ⟨older, hdedup⟩ : ∃ older,
        used.dedup = older ++ k :: (used.rtakeWhile (· ≠ k)).dedup := by
      have hsuffix := List.suffix_union_right before (k :: used.rtakeWhile (· ≠ k)).dedup
      rw [← List.dedup_append, ← hsplit, List.dedup_cons_of_notMem hsince] at hsuffix
      obtain ⟨older, holder⟩ := hsuffix
      exact ⟨older, holder.symm⟩
    rw [Recent, latest, hdedup]
    by_cases hlt : (used.rtakeWhile (· ≠ k)).dedup.length < n
    · refine iff_of_true ?_ ⟨hk, hlt⟩
      have hkeep : (older ++ k :: (used.rtakeWhile (· ≠ k)).dedup).length - n ≤ older.length := by
        rw [List.length_append, List.length_cons]
        omega
      rw [List.rtake, List.drop_append_of_le_length hkeep]
      exact List.mem_append_right _ List.mem_cons_self
    · refine iff_of_false ?_ fun h => hlt h.2
      rw [← List.singleton_append, ← List.append_assoc, rtake_append_of_le _ (by omega)]
      exact fun hmem => hsince (List.mem_dedup.1 (List.mem_of_mem_drop hmem))
  · have hnot : k ∉ latest n used := fun hmem =>
      hk (List.mem_dedup.1 (List.mem_of_mem_drop hmem))
    exact iff_of_false hnot fun h => hk h.1

/-- How many of the uses were of a key used recently. -/
def hitCount (n : Nat) (used : List κ) : Nat :=
  (List.range used.length).countP fun i => used[i]?.any fun k => Recent n (used.take i) k

/-- One more use is a hit exactly if its key was used recently. -/
theorem hitCount_concat (n : Nat) (used : List κ) (k : κ) :
    hitCount n (used ++ [k]) = hitCount n used + if Recent n used k then 1 else 0 := by
  have hbefore : ∀ i ∈ List.range used.length,
      ((used ++ [k])[i]?.any fun j => Recent n ((used ++ [k]).take i) j) =
        used[i]?.any fun j => Recent n (used.take i) j := by
    intro i hi
    have hlt : i < used.length := List.mem_range.1 hi
    rw [List.getElem?_append_left hlt, List.take_append_of_le_length hlt.le]
  have hlast : ((used ++ [k])[used.length]?.any fun j =>
      Recent n ((used ++ [k]).take used.length) j) = decide (Recent n used k) := by
    simp
  rw [hitCount, List.length_append, List.length_singleton, List.range_succ, List.countP_append,
    List.countP_congr fun i hi => by rw [hbefore i hi], List.countP_singleton, hlast, hitCount]
  simp only [decide_eq_true_eq]

end Latest

/-! ## One look-up -/

namespace RecencyCache

variable {κ α : Type} [DecidableEq κ] {c : RecencyCache κ α}

/-- The cache is what a run of uses leaves behind: the latest keys, and each use counted. -/
structure Reflects (c : RecencyCache κ α) (n : Nat) (used : List κ) : Prop where
  capacity_eq : c.capacity = n
  keys_eq : c.keys = latest n used
  hits_eq : c.hits = hitCount n used
  misses_eq : c.hits + c.misses = used.length

/-- An empty cache shows no uses. -/
theorem reflects_empty (n : Nat) : (empty n : RecencyCache κ α).Reflects n [] where
  capacity_eq := rfl
  keys_eq := by rw [latest, List.dedup_nil, List.rtake_nil]; rfl
  hits_eq := rfl
  misses_eq := rfl

/-- A cleared cache shows no uses. -/
theorem Reflects.clear {n : Nat} {used : List κ} (h : c.Reflects n used) : c.clear.Reflects n [] := by
  rw [RecencyCache.clear, h.capacity_eq]
  exact reflects_empty n

/-- A key is not found exactly if it is not in the cache. -/
theorem find?_eq_none_iff (c : RecencyCache κ α) (k : κ) : c.find? k = none ↔ k ∉ c.keys := by
  rw [find?, List.lookup_eq_none_iff, keys, List.mem_map]
  constructor
  · rintro hnone ⟨entry, hentry, rfl⟩
    have := hnone entry hentry
    simp at this
  · intro hnot entry hentry
    rw [bne_iff_ne]
    rintro rfl
    exact hnot ⟨entry, hentry, rfl⟩

/-- A key that is found is in the cache. -/
theorem mem_keys_of_find?_eq_some {k : κ} {a : α} (h : c.find? k = some a) : k ∈ c.keys :=
  List.mem_map.2 ⟨(k, a), mem_entries_of_find?_eq_some h, rfl⟩

/-- A key that is found moves to the end; another one is added there, and old ones are dropped if the
cache is too full. -/
theorem keys_fetch (h : 0 ≤ c.capacity) (make : κ → α) (k : κ) :
    (c.fetch make k).2.keys =
      if k ∈ c.keys then c.keys.filter (· ≠ k) ++ [k]
      else (c.keys ++ [k]).rtake c.capacity.toNat := by
  cases hfind : c.find? k with
  | none =>
    rw [if_neg ((find?_eq_none_iff c k).1 hfind)]
    simp only [fetch, hfind, if_neg (not_lt.2 h), keys, trim, List.map_drop, List.map_append,
      List.rtake, List.length_append, List.length_map, List.map_cons, List.map_nil,
      List.length_singleton]
  | some entry =>
    rw [if_pos (mem_keys_of_find?_eq_some hfind)]
    simp only [fetch, hfind, keys, List.map_append, List.filter_map]
    rfl

/-- A look-up is a hit if the key is there, and a miss if not. -/
theorem counters_fetch (c : RecencyCache κ α) (make : κ → α) (k : κ) :
    (c.fetch make k).2.hits = c.hits + (if k ∈ c.keys then 1 else 0) ∧
      (c.fetch make k).2.misses = c.misses + if k ∈ c.keys then 0 else 1 := by
  cases hfind : c.find? k with
  | none =>
    have hmem := (find?_eq_none_iff c k).1 hfind
    rw [if_neg hmem, if_neg hmem]
    simp only [fetch, hfind]
    split <;> exact ⟨rfl, rfl⟩
  | some entry =>
    have hmem := mem_keys_of_find?_eq_some hfind
    rw [if_pos hmem, if_pos hmem]
    simp only [fetch, hfind, Nat.add_zero, and_self]

/-- Fetching adds one use. -/
theorem Reflects.fetch {n : Nat} {used : List κ} (h : c.Reflects n used) (make : κ → α) (k : κ) :
    (c.fetch make k).2.Reflects n (used ++ [k]) where
  capacity_eq := (capacity_fetch c make k).trans h.capacity_eq
  keys_eq := by
    have hcapacity : c.capacity.toNat = n := by
      rw [h.capacity_eq, Int.toNat_natCast]
    rw [keys_fetch (by rw [h.capacity_eq]; exact Int.natCast_nonneg n), latest_concat, h.keys_eq,
      hcapacity]
  hits_eq := by
    rw [(counters_fetch c make k).1, hitCount_concat, h.hits_eq, h.keys_eq]
    simp only [mem_latest_iff]
  misses_eq := by
    rw [hits_add_misses_fetch, h.misses_eq, List.length_append, List.length_singleton]

end RecencyCache

/-! ## Runs of requests -/

namespace Evaluator

/-- The expression that a request has compiled: none if its mode is unknown or its expression blank. -/
def Request.compiled? : Request → Option (Option String)
  | .evaluate choice text =>
    if choice.all (·.mode?.isSome) && !Text.allBlank (text.getD "") then some text else none
  | .compile text => some text
  | .clear => none

/-- Whether a request empties the cache. -/
def Request.isClear : Request → Bool
  | .clear => true
  | _ => false

/-- The expressions compiled in a run of requests since the cache was last emptied. -/
def compiledSinceClear (requests : List Request) : List (Option String) :=
  (requests.rtakeWhile (!·.isClear)).filterMap Request.compiled?

/-- The evaluator after one more request is the one before it, after the request. -/
theorem serveAll_concat_snd (a : Arithmetic) (e : Evaluator) (requests : List Request)
    (request : Request) :
    (e.serveAll a (requests ++ [request])).2 = ((e.serveAll a requests).2.serve a request).2 := by
  induction requests generalizing e with
  | nil => rfl
  | cons first rest ih => exact ih _

/-- One more request is one more to compile since the last clearing, or clears. -/
theorem compiledSinceClear_concat (requests : List Request) (request : Request) :
    compiledSinceClear (requests ++ [request]) =
      if request.isClear then [] else compiledSinceClear requests ++ request.compiled?.toList := by
  rw [compiledSinceClear, List.rtakeWhile_concat]
  cases request.isClear with
  | true => rfl
  | false =>
    rw [if_pos (by simp), if_neg (by simp), List.filterMap_append, compiledSinceClear]
    cases hcompiled : request.compiled? <;> simp [hcompiled]

/-- An evaluation whose mode is known and whose expression is not blank compiles the expression, and another
one leaves the evaluator alone. -/
theorem evaluate_snd_eq (a : Arithmetic) (e : Evaluator) (choice : Option AngleMode.Choice)
    (text : Option String) :
    (e.evaluate a choice text).2 =
      if (choice.all (·.mode?.isSome) && !Text.allBlank (text.getD "")) = true
      then (e.compile text).2 else e := by
  have hin : ∀ mode : AngleMode, (e.evaluateIn a mode text).2 =
      if Text.allBlank (text.getD "") = true then e else (e.compile text).2 := by
    intro mode
    unfold evaluateIn
    split
    · rfl
    · obtain ⟨program | fault, e'⟩ := e.compile text <;> rfl
  unfold evaluate modeFor
  cases choice with
  | none =>
    rw [hin]
    cases Text.allBlank (text.getD "") <;> rfl
  | some choice =>
    cases hmode : choice.mode? with
    | none => simp [AngleMode.Choice.mode, hmode]
    | some mode =>
      simp only [AngleMode.Choice.mode, hmode, hin]
      cases Text.allBlank (text.getD "") <;> simp [hmode]

/-- A request looks up the expression it has compiled, if any; otherwise it leaves the cache alone, unless
it empties it. -/
theorem cache_serve (a : Arithmetic) (e : Evaluator) (request : Request) :
    (e.serve a request).2.cache =
      match request.compiled? with
      | some text => (e.cache.fetch (fun text => Program.compile (text.getD "")) text).2
      | none => if request.isClear then e.cache.clear else e.cache := by
  cases request with
  | compile text => exact congrArg cache (compile_snd e text)
  | clear => rfl
  | evaluate choice text =>
    show (e.evaluate a choice text).2.cache = _
    rw [evaluate_snd_eq, Request.compiled?]
    split
    · rw [compile_snd]
    · rfl

/-- After every run the cache is what the expressions compiled since it was last emptied leave behind. -/
theorem reflects_serveAll {n : Nat} {e : Evaluator} (h : e.cache = .empty n) (a : Arithmetic)
    (requests : List Request) :
    (e.serveAll a requests).2.cache.Reflects n (compiledSinceClear requests) := by
  induction requests using List.reverseRecOn with
  | nil =>
    rw [show (e.serveAll a []).2 = e from rfl, h]
    exact RecencyCache.reflects_empty n
  | append_singleton requests request ih =>
    rw [serveAll_concat_snd, cache_serve, compiledSinceClear_concat]
    cases hcompiled : request.compiled? with
    | some text =>
      have hclear : request.isClear = false := by
        cases request with
        | evaluate | compile => rfl
        | clear => simp [Request.compiled?] at hcompiled
      rw [hclear]
      exact ih.fetch _ text
    | none =>
      cases request.isClear with
      | true => exact ih.clear
      | false =>
        rw [if_neg (by simp), if_neg (by simp), Option.toList_none, List.append_nil]
        exact ih

/-- After every run an evaluator with room for `n` programs keeps those of the last `n` different
expressions compiled since it was last emptied, in the order of their last use. The next expression that is
compiled is a hit if it is among the recent ones and a miss otherwise, and the counters count both. -/
theorem serveAll_recency {s : Settings} {size : Option Int} {choice : Option AngleMode.Choice}
    {e : Evaluator} {n : Nat} (h : create s size choice = .ok e) (hsize : size.getD s.cacheSize = n)
    (a : Arithmetic) (requests : List Request) :
    (e.serveAll a requests).2.cache.keys = (compiledSinceClear requests).dedup.rtake n ∧
      (∀ request text, request.compiled? = some text →
        ((e.serveAll a requests).2.serve a request).2.cache.hits =
            (e.serveAll a requests).2.cache.hits +
              (if Recent n (compiledSinceClear requests) text then 1 else 0) ∧
          ((e.serveAll a requests).2.serve a request).2.cache.misses =
            (e.serveAll a requests).2.cache.misses +
              if Recent n (compiledSinceClear requests) text then 0 else 1) ∧
      (e.serveAll a requests).2.cache.hits = hitCount n (compiledSinceClear requests) ∧
      (e.serveAll a requests).2.cache.misses =
        (compiledSinceClear requests).length - hitCount n (compiledSinceClear requests) := by
  have hempty : e.cache = .empty n := by
    unfold create at h
    split at h
    · cases h
      exact congrArg RecencyCache.empty hsize
    · cases h
  have hafter := reflects_serveAll hempty a requests
  refine ⟨hafter.keys_eq, ?_, hafter.hits_eq, ?_⟩
  · intro request text hcompiled
    have hcounters := RecencyCache.counters_fetch (e.serveAll a requests).2.cache
      (fun text => Program.compile (text.getD "")) text
    simp only [hafter.keys_eq, mem_latest_iff] at hcounters
    rw [cache_serve, hcompiled]
    exact hcounters
  · have htotal := hafter.misses_eq
    rw [hafter.hits_eq] at htotal
    omega

/-- Requests to an evaluator with room for two programs: a mistake that stays, one expression used again in
time and another one too late, a blank expression and an unknown mode. -/
def reusing : List Request :=
  [.compile (some "7"), .clear, .evaluate none (some "1/"), .compile (some "2+2"),
    .evaluate (some (.name "rad")) (some "1/"), .evaluate none (some "\t"), .compile (some "3"),
    .evaluate (some (.name "grad")) (some "2+2"), .evaluate none (some "2+2")]

/-- A run in which a program is used again once in time and once too late. -/
theorem serveAll_recency_reusing :
    create .standard (some 2) none = .ok ⟨.degrees, .empty 2⟩ ∧
      (some 2).getD Settings.standard.cacheSize = (2 : Nat) ∧
      compiledSinceClear reusing =
        [some "1/", some "2+2", some "1/", some "3", some "2+2"] ∧
      (serveAll .ieee ⟨.degrees, .empty 2⟩ reusing).2.cache.keys = [some "3", some "2+2"] ∧
      (serveAll .ieee ⟨.degrees, .empty 2⟩ reusing).2.cache.hits = 1 ∧
      (serveAll .ieee ⟨.degrees, .empty 2⟩ reusing).2.cache.misses = 4 := by
  have hcreate : create .standard (some 2) none = .ok ⟨.degrees, .empty 2⟩ := by rfl
  have hsize : (some 2).getD Settings.standard.cacheSize = (2 : Nat) := rfl
  have hused : compiledSinceClear reusing =
      [some "1/", some "2+2", some "1/", some "3", some "2+2"] := by decide +kernel
  obtain ⟨hkeys, -, hhits, hmisses⟩ := serveAll_recency hcreate hsize .ieee reusing
  rw [hused] at hkeys hhits hmisses
  exact ⟨hcreate, hsize, hused, hkeys.trans (by decide), hhits.trans (by decide),
    hmisses.trans (by decide)⟩

end Evaluator

end DeskCalculator
