import DeskCalculator.Expression
import DeskCalculator.Proofs.Nesting
import DeskCalculator.Proofs.StackMachine

/-!
# Substitution of equals

A balanced text in parentheses is compiled on its own: what surrounds it only adds a program before and
a program after. So a parenthesised part of any text, well formed or not, can be replaced by another of
the same value.

The surroundings may leave anything waiting and may expect anything. The opening parenthesis is the
barrier that keeps the part from it, and the closing one empties what the part has left waiting.
-/

namespace DeskCalculator

/-- A part in parentheses, and what surrounds it. -/
def Text.parenthesised (pre part post : String) : String :=
  pre ++ "(" ++ part ++ ")" ++ post

/-! ## Lexemes and tokens -/

/-- Parentheses are lexemes of their own, whatever stands around them. -/
theorem lexemes_parenthesised (pre part post : String) :
    lexemes (Text.parenthesised pre part post) =
      lexemes pre ++ .opening :: (lexemes part ++ .closing :: lexemes post) := by
  have hlist : (Text.parenthesised pre part post).toList =
      pre.toList ++ '(' :: (part.toList ++ ')' :: post.toList) := by
    simp [Text.parenthesised]
  rw [lexemes, hlist, Lexeme.read_parenthesis (.inl ⟨rfl, rfl⟩),
    Lexeme.read_parenthesis (.inr ⟨rfl, rfl⟩)]
  rfl

/-- A text in parentheses has its own tokens there. -/
theorem tokenize_parenthesised (pre part post : String) :
    Token.tokenize (Text.parenthesised pre part post) =
      Token.tokenize pre ++ .leftParen ::
        (Token.tokenize part ++ .rightParen :: Lexeme.tokenList false (lexemes post)) := by
  rw [tokenize_eq, lexemes_parenthesised, Lexeme.tokenList_append, Lexeme.tokenList,
    Lexeme.tokenList_append, Lexeme.tokenList, tokenize_eq, tokenize_eq]
  rfl

/-! ## Programs -/

namespace Program

/-- What the text before a parenthesised part contributes. -/
def before (pre : String) : Program :=
  written [] (Token.tokenize pre)

/-- What the end of a parenthesised part and the text after it contribute. -/
def after (pre post : String) : Program :=
  (close (.paren :: waitingAfter [] (Token.tokenize pre))).1 ++
    arrange (close (.paren :: waitingAfter [] (Token.tokenize pre))).2
      (Lexeme.tokenList false (lexemes post))

/-- After a balanced text no parenthesis waits. -/
theorem isInside_of_openParens_eq_zero {waiting : List Pending} (h : openParens waiting = 0) :
    ∀ w ∈ waiting, w.isInside = true := by
  intro w hw
  cases w with
  | operator | name => rfl
  | paren => exact absurd hw (List.count_eq_zero.1 h)

/-- The program of a balanced text stands inside the program of whatever surrounds it. -/
theorem compile_parenthesised {part : String} (h : Text.Balanced part) (pre post : String) :
    compile (Text.parenthesised pre part post) = before pre ++ compile part ++ after pre post := by
  have hdepth : Bracket.depthAfter? (openParens [])
      ((Token.tokenize part).filterMap Token.bracket?) = some 0 := by
    rw [brackets_tokenize]
    exact h
  obtain ⟨hwritten, hwaiting, hopen⟩ :=
    waitingAfter_above hdepth (waitingAfter [] (Token.tokenize pre))
  rw [List.nil_append] at hwritten hwaiting
  -- the closing parenthesis finds its partner behind what the part has left waiting, and nothing else
  have hleft := step_rightParen (isInside_of_openParens_eq_zero hopen)
    (waitingAfter [] (Token.tokenize pre))
  calc compile (Text.parenthesised pre part post)
      = before pre ++ arrange (.paren :: waitingAfter [] (Token.tokenize pre))
          (Token.tokenize part ++ .rightParen :: Lexeme.tokenList false (lexemes post)) := by
        rw [compile, ofTokens, tokenize_parenthesised, arrange_append, before, arrange]
        rfl
    _ = before pre ++ (written [] (Token.tokenize part) ++
          (flush (waitingAfter [] (Token.tokenize part)) ++ after pre post)) := by
        rw [arrange_append, hwritten, hwaiting, arrange, hleft, after, List.append_assoc]
    _ = before pre ++ compile part ++ after pre post := by
        rw [compile, ofTokens, arrange_eq_written]
        simp only [List.append_assoc]

/-- If parentheses stay open, the program has a mark of it. -/
theorem unclosed_mem_compile {s : String} {depth : Nat}
    (h : Bracket.depthAfter? 0 (Text.brackets s) = some depth) (hpos : depth ≠ 0) :
    .unclosed ∈ compile s := by
  have hdepth : Bracket.depthAfter? (openParens [])
      ((Token.tokenize s).filterMap Token.bracket?) = some depth := by
    rw [brackets_tokenize]
    exact h
  obtain ⟨-, -, hopen⟩ := waitingAfter_above hdepth []
  have hparen : .paren ∈ waitingAfter [] (Token.tokenize s) := by
    rw [openParens] at hopen
    rw [← List.count_pos_iff]
    omega
  rw [compile, ofTokens, arrange_eq_written]
  exact List.mem_append_right _ (List.mem_map_of_mem hparen)

/-- Programs that compute the same operand can be exchanged. -/
theorem run_congr {a : Arithmetic} {mode : AngleMode} {p q : Program} {x : Outcome}
    (hp : Computes a mode p x) (hq : Computes a mode q x) (before after : Program) :
    run a mode (before ++ p ++ after) = run a mode (before ++ q ++ after) := by
  have hsame : ∀ stack, execAll a mode stack (p ++ after) = execAll a mode stack (q ++ after) := by
    intro stack
    rw [execAll_append_bind, execAll_append_bind, hp, hq]
  rw [run, run, List.append_assoc, List.append_assoc, execAll_append_bind, execAll_append_bind]
  simp only [hsame]

end Program

namespace Expression

variable {a : Arithmetic} {mode : AngleMode}

/-- The outcome of an expression that is not blank is that of its program. -/
theorem evaluate_of_not_blank {s : String} (h : Text.allBlank s = false) :
    evaluate a mode s = Program.run a mode (Program.compile s) := by
  rw [evaluate, if_neg (by simp [h])]

/-- A text with a parenthesis is not blank. -/
theorem allBlank_parenthesised (pre part post : String) :
    Text.allBlank (Text.parenthesised pre part post) = false := by
  have hparen : Text.isBlank '(' = false := by decide
  simp [Text.allBlank, Text.parenthesised, hparen]

/-- A text with a value leaves no parenthesis open. -/
theorem balanced_of_evaluate_eq_ok {s : String} {x : Float} (hblank : Text.allBlank s = false)
    (hstray : Text.NoStrayClosing s) (h : evaluate a mode s = .ok x) : Text.Balanced s := by
  obtain ⟨depth, hdepth⟩ := Option.isSome_iff_exists.1 hstray
  by_cases hpos : depth = 0
  · rw [Text.Balanced, hdepth, hpos]
  · rw [evaluate_of_not_blank hblank] at h
    exact absurd h (Program.run_ne_ok_of_unclosed (Program.unclosed_mem_compile hdepth hpos) x)

/-- The program of a balanced part is the same in all surroundings, and parts of equal value can be
exchanged in parentheses: the whole has the same outcome, be it a value or an error. -/
theorem substitution :
    (∀ pre post : String, ∃ A B : Program, ∀ part : String, Text.Balanced part →
      Program.compile (Text.parenthesised pre part post) = A ++ Program.compile part ++ B) ∧
    ∀ (a : Arithmetic) (mode : AngleMode) (s s' : String) (x : Float),
      Text.allBlank s = false → Text.allBlank s' = false →
      Text.NoStrayClosing s → Text.NoStrayClosing s' →
      evaluate a mode s = .ok x → evaluate a mode s' = .ok x →
      ∀ pre post : String,
        evaluate a mode (Text.parenthesised pre s post) =
          evaluate a mode (Text.parenthesised pre s' post) := by
  refine ⟨fun pre post => ⟨Program.before pre, Program.after pre post, fun part h =>
    Program.compile_parenthesised h pre post⟩, ?_⟩
  intro a mode s s' x hblank hblank' hstray hstray' h h' pre post
  have hbalanced := balanced_of_evaluate_eq_ok hblank hstray h
  have hbalanced' := balanced_of_evaluate_eq_ok hblank' hstray' h'
  rw [evaluate_of_not_blank hblank] at h
  rw [evaluate_of_not_blank hblank'] at h'
  rw [evaluate_of_not_blank (allBlank_parenthesised pre s post),
    evaluate_of_not_blank (allBlank_parenthesised pre s' post),
    Program.compile_parenthesised hbalanced, Program.compile_parenthesised hbalanced']
  exact Program.run_congr (Program.computes_of_run h) (Program.computes_of_run h') _ _

/-- Two texts of one value, exchanged under a factorial between closing parentheses that close nothing. -/
theorem substitution_in_malformed_context :
    evaluate .ieee .degrees "-(1 - 3)" = .ok 2 ∧ evaluate .ieee .degrees "sqrt 4" = .ok 2 ∧
      Text.Balanced "-(1 - 3)" ∧ Text.NoStrayClosing "sqrt 4" ∧
      (∃ A B, Program.compile "1) ^ fact(-(1 - 3)))" = A ++ Program.compile "-(1 - 3)" ++ B) ∧
      evaluate .ieee .degrees "1) ^ fact(-(1 - 3)))" =
        evaluate .ieee .degrees "1) ^ fact(sqrt 4))" := by
  have h : evaluate .ieee .degrees "-(1 - 3)" = .ok 2 := by decide +kernel
  have h' : evaluate .ieee .degrees "sqrt 4" = .ok 2 := by decide +kernel
  have hbalanced : Text.Balanced "-(1 - 3)" := by decide +kernel
  have hstray' : Text.NoStrayClosing "sqrt 4" := by decide +kernel
  have hstray : Text.NoStrayClosing "-(1 - 3)" := by decide +kernel
  have htext : Text.parenthesised "1) ^ fact" "-(1 - 3)" ")" = "1) ^ fact(-(1 - 3)))" := by
    decide +kernel
  have htext' : Text.parenthesised "1) ^ fact" "sqrt 4" ")" = "1) ^ fact(sqrt 4))" := by
    decide +kernel
  refine ⟨h, h', hbalanced, hstray', ?_, ?_⟩
  · obtain ⟨A, B, hAB⟩ := substitution.1 "1) ^ fact" ")"
    refine ⟨A, B, ?_⟩
    rw [← htext]
    exact hAB _ hbalanced
  · rw [← htext, ← htext']
    exact substitution.2 .ieee .degrees _ _ 2 (by decide +kernel) (by decide +kernel) hstray hstray'
      h h' "1) ^ fact" ")"

end Expression

end DeskCalculator
