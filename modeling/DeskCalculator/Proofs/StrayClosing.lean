import DeskCalculator.Proofs.Substitution

/-!
# Closing parentheses without a partner

A closing parenthesis that closes nothing is not passed over: it ends a group that reaches back to the
beginning of the text. `compile_stray_closing` says that the text means the same as with an opening
parenthesis put in front, and that a pair of parentheses around a whole text means nothing.

Before the stray parenthesis only names and operators wait, however the text ends. It releases all of
them, as a partner at the very beginning would make it do, and no name stands in front of that partner to
be called.
-/

namespace DeskCalculator

/-- Behind a closing parenthesis no operand is expected. -/
theorem tokenize_closing (s t : String) :
    Token.tokenize (s ++ ")" ++ t) =
      Token.tokenize s ++ .rightParen :: Lexeme.tokenList false (lexemes t) := by
  have hlist : (s ++ ")" ++ t).toList = s.toList ++ ')' :: t.toList := by simp
  have hlexemes : lexemes (s ++ ")" ++ t) = lexemes s ++ .closing :: lexemes t := by
    rw [lexemes, hlist, Lexeme.read_parenthesis (.inr ⟨rfl, rfl⟩)]
    rfl
  rw [tokenize_eq, hlexemes, Lexeme.tokenList_append, Lexeme.tokenList, tokenize_eq]
  rfl

namespace Program

/-- A closing parenthesis for which no partner waits releases everything and calls nothing. -/
theorem step_rightParen_of_isInside {waiting : List Pending} (h : ∀ w ∈ waiting, w.isInside = true) :
    step waiting .rightParen = (flush waiting, []) := by
  have htake : waiting.takeWhile Pending.isInside = waiting := List.takeWhile_eq_self_iff.2 h
  have hdrop : waiting.dropWhile Pending.isInside = [] := List.dropWhile_eq_nil_iff.2 h
  simp only [step, htake, hdrop, close, List.append_nil]

/-- After a balanced text only names and operators wait. -/
theorem isInside_of_mem_waitingAfter {s : String} (h : Text.Balanced s) :
    ∀ w ∈ waitingAfter [] (Token.tokenize s), w.isInside = true := by
  have hdepth : Bracket.depthAfter? (openParens [])
      ((Token.tokenize s).filterMap Token.bracket?) = some 0 := by
    rw [brackets_tokenize]
    exact h
  obtain ⟨-, -, hopen⟩ := waitingAfter_above hdepth []
  exact isInside_of_openParens_eq_zero hopen

/-- A stray closing parenthesis completes the program of the text before it, and what follows is
compiled as if an operand stood in front of it. -/
theorem compile_closing {s : String} (h : Text.Balanced s) (t : String) :
    compile (s ++ ")" ++ t) = compile s ++ ofTokens (Lexeme.tokenList false (lexemes t)) := by
  have hstep := step_rightParen_of_isInside (isInside_of_mem_waitingAfter h)
  calc compile (s ++ ")" ++ t)
      = written [] (Token.tokenize s) ++ (flush (waitingAfter [] (Token.tokenize s)) ++
          arrange [] (Lexeme.tokenList false (lexemes t))) := by
        rw [compile, ofTokens, tokenize_closing, arrange_append, arrange, hstep]
    _ = compile s ++ ofTokens (Lexeme.tokenList false (lexemes t)) := by
        rw [compile, ofTokens, ofTokens, arrange_eq_written [] (Token.tokenize s), List.append_assoc]

/-- Nothing waits in front of a pair of parentheses that begins the text. -/
theorem compile_enclosed {s : String} (h : Text.Balanced s) (t : String) :
    compile ("(" ++ s ++ ")" ++ t) = compile s ++ ofTokens (Lexeme.tokenList false (lexemes t)) := by
  have hstart : Token.tokenize "" = [] := by decide +kernel
  have htext : "(" ++ s ++ ")" ++ t = Text.parenthesised "" s t := by simp [Text.parenthesised]
  rw [htext, compile_parenthesised h, before, after, hstart, written, waitingAfter, close,
    List.nil_append, List.nil_append, ofTokens]
  simp

/-- A closing parenthesis without a partner means the same as with one at the very beginning, and
parentheses around a whole text mean nothing. -/
theorem compile_stray_closing {s : String} (h : Text.Balanced s) :
    (∀ t : String, compile (s ++ ")" ++ t) = compile ("(" ++ s ++ ")" ++ t)) ∧
      compile ("(" ++ s ++ ")") = compile (s ++ ")") ∧ compile (s ++ ")") = compile s := by
  have hnothing : ofTokens (Lexeme.tokenList false (lexemes "")) = [] := by decide +kernel
  have hclosing := compile_closing h ""
  have henclosed := compile_enclosed h ""
  rw [String.append_empty, hnothing, List.append_nil] at hclosing henclosed
  exact ⟨fun t => (compile_closing h t).trans (compile_enclosed h t).symm,
    henclosed.trans hclosing.symm, hclosing⟩

/-- A call that is complete, a name and two operators that still wait, and more stray parentheses
after the first. -/
theorem compile_stray_closing_dangling :
    Text.Balanced "sqrt(4) + fact * -" ∧
      compile "sqrt(4) + fact * -) ^ 2) - 3" = compile "(sqrt(4) + fact * -) ^ 2) - 3" ∧
      compile "(sqrt(4) + fact * -)" = compile "sqrt(4) + fact * -)" ∧
      compile "sqrt(4) + fact * -)" = compile "sqrt(4) + fact * -" := by
  have hbalanced : Text.Balanced "sqrt(4) + fact * -" := by decide +kernel
  obtain ⟨hstray, hpair, hclosing⟩ := compile_stray_closing hbalanced
  exact ⟨hbalanced, hstray " ^ 2) - 3", hpair, hclosing⟩

end Program

end DeskCalculator
