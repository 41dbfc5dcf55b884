import DeskCalculator.Proofs.Lexeme
import DeskCalculator.Proofs.Waiting

/-!
# Nesting of parentheses

Parentheses are counted by one function, `Bracket.depthAfter?`, whether they stand in a text, among
lexemes or among tokens. The lexer keeps them all, and while tokens are arranged, as many opening
parentheses wait as are open.

A waiting parenthesis is a barrier: as long as it is not closed, what is read does not reach what waits
behind it (`waitingAfter_above`).
-/

namespace DeskCalculator

/-- A parenthesis without what it encloses. -/
inductive Bracket where
  | opening
  | closing
  deriving DecidableEq

namespace Bracket

/-- The parenthesis that a character is. -/
def ofChar? : Char → Option Bracket
  | '(' => some opening
  | ')' => some closing
  | _ => none

/-- How many parentheses are open after a sequence of them, if `depth` are open before it; none if one of
them closes what was never opened. -/
def depthAfter? : Nat → List Bracket → Option Nat
  | depth, [] => some depth
  | depth, opening :: bs => depthAfter? (depth + 1) bs
  | 0, closing :: _ => none
  | depth + 1, closing :: bs => depthAfter? depth bs

/-- The depth after two runs of brackets is reached through the depth after the first. -/
theorem depthAfter?_append (depth : Nat) (bs cs : List Bracket) :
    depthAfter? depth (bs ++ cs) = (depthAfter? depth bs).bind (depthAfter? · cs) := by
  fun_induction depthAfter? depth bs with
  | case1 depth => rfl
  | case2 depth bs ih => exact ih
  | case3 bs => rfl
  | case4 depth bs ih => exact ih

end Bracket

/-! ## Parentheses of texts and tokens -/

/-- The parentheses of a text. -/
def Text.brackets (s : String) : List Bracket :=
  s.toList.filterMap Bracket.ofChar?

/-- No closing parenthesis of the text is without an opening one. -/
def Text.NoStrayClosing (s : String) : Prop :=
  (Bracket.depthAfter? 0 (Text.brackets s)).isSome = true

/-- Every parenthesis of the text has its partner. -/
def Text.Balanced (s : String) : Prop :=
  Bracket.depthAfter? 0 (Text.brackets s) = some 0

instance (s : String) : Decidable (Text.NoStrayClosing s) :=
  inferInstanceAs (Decidable ((Bracket.depthAfter? 0 (Text.brackets s)).isSome = true))

instance (s : String) : Decidable (Text.Balanced s) :=
  inferInstanceAs (Decidable (Bracket.depthAfter? 0 (Text.brackets s) = some 0))

/-- The parenthesis that a lexeme is. -/
def Lexeme.bracket? : Lexeme → Option Bracket
  | opening => some .opening
  | closing => some .closing
  | _ => none

/-- The parenthesis that a token is. -/
def Token.bracket? : Token → Option Bracket
  | leftParen => some .opening
  | rightParen => some .closing
  | _ => none

/-- The first element of a list is mapped in front of the others, or dropped. -/
theorem filterMap_cons_eq {α β : Type} (f : α → Option β) (a : α) (as : List α) :
    (a :: as).filterMap f = (f a).toList ++ as.filterMap f := by
  cases h : f a with
  | none => rw [List.filterMap_cons_none h]; rfl
  | some b => rw [List.filterMap_cons_some h]; rfl

/-- A character of a kind that has no parentheses is no bracket. -/
theorem ofChar?_eq_none {p : Char → Bool} (hopening : p '(' = false) (hclosing : p ')' = false)
    {c : Char} (h : p c = true) : Bracket.ofChar? c = none := by
  unfold Bracket.ofChar?
  split
  · simp [hopening] at h
  · simp [hclosing] at h
  · rfl

/-- A run of characters that are no parentheses can be left out. -/
theorem filterMap_ofChar?_run {p : Char → Bool} (hopening : p '(' = false) (hclosing : p ')' = false)
    (s : List Char) :
    (s.dropWhile p).filterMap Bracket.ofChar? = s.filterMap Bracket.ofChar? := by
  induction s with
  | nil => rfl
  | cons c s ih =>
    cases hc : p c with
    | true => rw [List.dropWhile_cons_of_pos hc, ih,
        List.filterMap_cons_none (ofChar?_eq_none hopening hclosing hc)]
    | false => rw [List.dropWhile_cons_of_neg (by simp [hc])]

/-- A word is no bracket. -/
theorem bracket?_ofWord {word : List Char} (h : ∀ c ∈ word, c.isAlpha = true) (hne : word ≠ []) :
    (Lexeme.ofWord word h hne).bracket? = none := by
  rw [Lexeme.ofWord]
  split <;> rfl

/-- A single character is a bracket as a lexeme exactly if it is one in the text. -/
theorem brackets_ofChar? (c : Char) :
    (Lexeme.ofChar? c).toList.filterMap Lexeme.bracket? = (Bracket.ofChar? c).toList := by
  unfold Lexeme.ofChar?
  split
  all_goals try rfl
  rename_i hopen hclose
  unfold Bracket.ofChar?
  split
  · exact absurd rfl hopen
  · exact absurd rfl hclose
  · rfl

/-- The brackets of the lexemes are those of the text. -/
theorem brackets_read (s : List Char) :
    (Lexeme.read s).filterMap Lexeme.bracket? = s.filterMap Bracket.ofChar? := by
  fun_induction Lexeme.read s with
  | case1 => rfl
  | case2 c rest h ih =>
    -- neither the first character nor the run behind it holds a parenthesis
    rw [List.filterMap_cons_none rfl, ih, filterMap_ofChar?_run (by decide) (by decide),
      List.filterMap_cons_none
        (ofChar?_eq_none (by decide) (by decide) (isNumeric_of_beginsNumber h))]
  | case3 c rest hn h ih =>
    rw [List.filterMap_cons_none (bracket?_ofWord _ _), ih,
      filterMap_ofChar?_run (by decide) (by decide),
      List.filterMap_cons_none (ofChar?_eq_none (by decide) (by decide) h)]
  | case4 c rest hn h ih =>
    rw [List.filterMap_append, brackets_ofChar?, ih, filterMap_cons_eq]

/-- The tokens of a lexeme have its bracket. -/
theorem brackets_tokens (operandNext : Bool) (l : Lexeme) :
    (l.tokens operandNext).filterMap Token.bracket? = l.bracket?.toList := by
  cases l with
  | sign op => cases op <;> cases operandNext <;> rfl
  | number | name | opening | closing => rfl

/-- The brackets of the tokens are those of the lexemes. -/
theorem brackets_tokenList (operandNext : Bool) (ls : List Lexeme) :
    (Lexeme.tokenList operandNext ls).filterMap Token.bracket? = ls.filterMap Lexeme.bracket? := by
  induction ls generalizing operandNext with
  | nil => rfl
  | cons l ls ih =>
    rw [Lexeme.tokenList, List.filterMap_append, brackets_tokens, ih, filterMap_cons_eq]

/-- The lexer keeps the parentheses of a text. -/
theorem brackets_tokenize (s : String) :
    (Token.tokenize s).filterMap Token.bracket? = Text.brackets s := by
  rw [tokenize_eq, brackets_tokenList, lexemes, brackets_read, Text.brackets]

/-! ## Parentheses that wait -/

namespace Program

/-- How many opening parentheses wait. -/
def openParens (waiting : List Pending) : Nat :=
  waiting.count .paren

/-- What a condition that parentheses do not meet skips contains none. -/
theorem openParens_dropWhile {p : Pending → Bool} (hp : p .paren = false) (waiting : List Pending) :
    openParens (waiting.dropWhile p) = openParens waiting := by
  have hskipped : (waiting.takeWhile p).count .paren = 0 := by
    refine List.count_eq_zero.2 fun hmem => ?_
    have := List.mem_takeWhile_imp hmem
    simp [hp] at this
  calc openParens (waiting.dropWhile p)
      = (waiting.takeWhile p).count .paren + (waiting.dropWhile p).count .paren := by
        rw [hskipped, Nat.zero_add, openParens]
    _ = openParens waiting := by
        rw [← List.count_append, List.takeWhile_append_dropWhile, openParens]

/-- What waits in front of a parenthesis is searched as if nothing were behind it. -/
theorem search_above {p : Pending → Bool} (hp : p .paren = false) (above below : List Pending) :
    (above ++ .paren :: below).takeWhile p = above.takeWhile p ∧
      (above ++ .paren :: below).dropWhile p = above.dropWhile p ++ .paren :: below := by
  induction above with
  | nil => simp [hp]
  | cons w above ih =>
    cases hw : p w with
    | true => simp [hw, ih]
    | false => simp [hw]

/-- If a parenthesis is open, a closing one finds it. -/
theorem dropWhile_isInside_of_openParens {waiting : List Pending} (h : openParens waiting ≠ 0) :
    ∃ rest, waiting.dropWhile Pending.isInside = .paren :: rest ∧
      openParens rest + 1 = openParens waiting := by
  have hcount := openParens_dropWhile (p := Pending.isInside) rfl waiting
  cases hdrop : waiting.dropWhile Pending.isInside with
  | nil =>
    rw [hdrop] at hcount
    exact absurd hcount.symm h
  | cons w rest =>
    have hw : w.isInside = false := by
      have := List.head?_dropWhile_not Pending.isInside waiting
      simpa [hdrop] using this
    cases w with
    | operator | name => simp [Pending.isInside] at hw
    | paren =>
      refine ⟨rest, rfl, ?_⟩
      rw [← hcount, hdrop, openParens, openParens, List.count_cons_self]

/-- A closing parenthesis leaves one fewer open, and calls nothing behind the next one. -/
theorem close_above (rest below : List Pending) :
    close (.paren :: rest ++ .paren :: below) =
        ((close (.paren :: rest)).1, (close (.paren :: rest)).2 ++ .paren :: below) ∧
      openParens (close (.paren :: rest)).2 = openParens rest := by
  match rest with
  | [] | .paren :: _ | .operator _ :: _ => exact ⟨rfl, rfl⟩
  | .name f :: rest =>
    refine ⟨rfl, ?_⟩
    rw [close, openParens, openParens, List.count_cons_of_ne (by simp)]

/-- A token that closes nothing from before leaves what waits behind an open parenthesis alone. -/
theorem step_above {t : Token} {above : List Pending} {depth : Nat}
    (h : Bracket.depthAfter? (openParens above) t.bracket?.toList = some depth)
    (below : List Pending) :
    step (above ++ .paren :: below) t =
        ((step above t).1, (step above t).2 ++ .paren :: below) ∧
      openParens (step above t).2 = depth := by
  cases t with
  | number text value =>
    exact ⟨rfl, Option.some.inj h⟩
  | operator op =>
    obtain ⟨htake, hdrop⟩ := search_above (p := Pending.goesBefore op) rfl above below
    refine ⟨by simp only [step, htake, hdrop, List.cons_append], ?_⟩
    rw [step, openParens, List.count_cons_of_ne (by simp), ← openParens,
      openParens_dropWhile rfl]
    exact Option.some.inj h
  | leftParen =>
    refine ⟨rfl, ?_⟩
    rw [step, openParens, List.count_cons_self]
    exact Option.some.inj h
  | identifier name =>
    refine ⟨rfl, ?_⟩
    rw [step, openParens, List.count_cons_of_ne (by simp)]
    exact Option.some.inj h
  | rightParen =>
    -- it closes nothing from before, so one is open that does not lie behind the barrier
    have hopen : openParens above ≠ 0 := by
      intro hzero
      rw [hzero] at h
      simp [Token.bracket?, Bracket.depthAfter?] at h
    obtain ⟨rest, hdrop, hcount⟩ := dropWhile_isInside_of_openParens hopen
    obtain ⟨htake, hdrop'⟩ := search_above (p := Pending.isInside) rfl above below
    obtain ⟨hclose, hrest⟩ := close_above rest below
    have hdepth : openParens rest = depth := by
      rw [← hcount] at h
      exact Option.some.inj h
    rw [hdrop] at hdrop'
    refine ⟨by simp only [step, htake, hdrop', hdrop, hclose], ?_⟩
    simp only [step, hdrop]
    exact hrest.trans hdepth

/-- Tokens that close nothing from before leave what waits behind an open parenthesis alone, and as many
opening parentheses wait after them as are open. -/
theorem waitingAfter_above {ts : List Token} {above : List Pending} {depth : Nat}
    (h : Bracket.depthAfter? (openParens above) (ts.filterMap Token.bracket?) = some depth)
    (below : List Pending) :
    written (above ++ .paren :: below) ts = written above ts ∧
      waitingAfter (above ++ .paren :: below) ts = waitingAfter above ts ++ .paren :: below ∧
      openParens (waitingAfter above ts) = depth := by
  induction ts generalizing above with
  | nil => exact ⟨rfl, rfl, Option.some.inj h⟩
  | cons t ts ih =>
    rw [filterMap_cons_eq, Bracket.depthAfter?_append, Option.bind_eq_some_iff] at h
    obtain ⟨middle, hmiddle, h⟩ := h
    -- the depth after one token is the one at which the rest begins
    obtain ⟨hstep, hopen⟩ := step_above hmiddle below
    obtain ⟨hwritten, hwaiting, hdepth⟩ := ih (hopen ▸ h)
    simp only [written, waitingAfter, hstep, hwritten, hwaiting, hdepth, and_self]

end Program

end DeskCalculator
