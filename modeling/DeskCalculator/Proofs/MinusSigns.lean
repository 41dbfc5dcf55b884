import DeskCalculator.Proofs.WrittenTokens

/-!
# Minus signs

A minus is a sign of its own or the mark of a negative operand, and what tells is the token before it.
`Token.minus_places` says where each of the two stands among the tokens of a text, that no other token is
unary, and that there are as many minus tokens as minus characters.

The lexer decides by the last token that it has written, which may be a minus it has itself decided on. What
it has decided for the lexemes before the minus is `Lexeme.operandAfter`, and `operandAfter_tokenList` reads the
same off the tokens.
-/

namespace DeskCalculator

/-- A minus sign, of either kind. -/
def Token.isMinus : Token → Bool
  | operator op => op.symbol = "-"
  | _ => false

namespace Lexeme

/-! ## What stands before a minus -/

/-- Whether an operand is expected can be seen from the tokens alone. -/
theorem operandAfter_tokenList (operandNext : Bool) (ls : List Lexeme) :
    Token.operandAfter operandNext (tokenList operandNext ls) = operandAfter operandNext ls := by
  rcases List.eq_nil_or_concat ls with rfl | ⟨init, last, rfl⟩
  · rfl
  · have hlast : operandAfter operandNext (init ++ [last]) = last.opensOperand := by
      rw [operandAfter, List.getLast?_concat]
      rfl
    rw [List.concat_eq_append, hlast, tokenList_append, tokenList, tokenList, List.append_nil,
      Token.operandAfter, List.getLast?_append]
    cases last with
    | sign op =>
      cases op with
      | sub => cases operandAfter operandNext init <;> rfl
      | _ => rfl
    | _ => rfl

/-- A token that is the only one of its lexeme is not unary, and if it is a minus, no operand was expected. -/
theorem not_isUnary_of_tokens_eq_singleton {l : Lexeme} {operandNext : Bool} {t : Token}
    (h : l.tokens operandNext = [t]) :
    t.isUnary = false ∧ (t.isMinus = true → operandNext = false) := by
  cases l with
  | sign op =>
    cases op with
    | sub =>
      cases operandNext with
      | false =>
        obtain rfl := (List.cons.inj h).1
        exact ⟨rfl, fun _ => rfl⟩
      | true => cases h
    | _ =>
      obtain rfl := (List.cons.inj h).1
      exact ⟨rfl, fun hminus => absurd hminus (by decide)⟩
  | _ =>
    obtain rfl := (List.cons.inj h).1
    exact ⟨rfl, fun hminus => absurd hminus Bool.false_ne_true⟩

/-- A unary operator is a minus with a zero before it, and before the zero an operand is expected. -/
theorem exists_of_isUnary {operandNext : Bool} {ls : List Lexeme} {before after : List Token} {t : Token}
    (h : tokenList operandNext ls = before ++ t :: after) (ht : t.isUnary = true) :
    t = .operator .unaryMinus ∧ ∃ front, before = front ++ [.ofLiteral "0"] ∧
      Token.operandAfter operandNext front = true := by
  obtain ⟨left, l, right, xs, ys, rfl, htokens, rfl, -⟩ := exists_of_tokenList_eq_append h
  rcases tokens_eq_append_cons htokens with ⟨-, -, hsingle⟩ | ⟨-, hexpected, ⟨-, rfl, -⟩ | ⟨rfl, rfl, -⟩⟩
  · rw [(not_isUnary_of_tokens_eq_singleton hsingle).1] at ht
    cases ht
  · cases ht
  · exact ⟨rfl, _, rfl, (operandAfter_tokenList _ _).trans hexpected⟩

/-- Before a minus that is not unary no operand is expected. -/
theorem operandAfter_of_isMinus {operandNext : Bool} {ls : List Lexeme} {before after : List Token}
    {t : Token} (h : tokenList operandNext ls = before ++ t :: after) (hminus : t.isMinus = true)
    (hunary : t.isUnary = false) : Token.operandAfter operandNext before = false := by
  obtain ⟨left, l, right, xs, ys, rfl, htokens, rfl, -⟩ := exists_of_tokenList_eq_append h
  rcases tokens_eq_append_cons htokens with ⟨rfl, -, hsingle⟩ | ⟨-, -, ⟨-, rfl, -⟩ | ⟨-, rfl, -⟩⟩
  · rw [List.append_nil, operandAfter_tokenList]
    exact (not_isUnary_of_tokens_eq_singleton hsingle).2 hminus
  · cases hminus
  · cases hunary

/-! ## How many there are -/

/-- One lexeme has a minus among its tokens exactly if it is one. -/
theorem countP_isMinus_tokens (operandNext : Bool) (l : Lexeme) :
    (l.tokens operandNext).countP Token.isMinus = [l].count (sign .sub) := by
  cases l with
  | sign op =>
    cases op with
    | sub => cases operandNext <;> rfl
    | _ => rfl
  | _ => rfl

/-- The tokens of minus are as many as the signs of minus among the lexemes. -/
theorem countP_isMinus_tokenList (operandNext : Bool) (ls : List Lexeme) :
    (tokenList operandNext ls).countP Token.isMinus = ls.count (sign .sub) := by
  induction ls generalizing operandNext with
  | nil => rfl
  | cons l ls ih =>
    rw [tokenList, List.countP_append, countP_isMinus_tokens, ih, ← List.count_append,
      List.singleton_append]

/-- Of single characters only the minus is a sign of minus. -/
theorem count_sub_ofChar? (c : Char) :
    (ofChar? c).toList.count (sign .sub) = if c == '-' then 1 else 0 := by
  unfold ofChar?
  split
  all_goals try rfl
  next hminus _ _ _ _ _ _ _ => simp_all

/-- A run of characters of a kind that the minus is not of has no minus in it. -/
theorem count_minus_of_run {p : Char → Bool} {c : Char} (hminus : p '-' = false) (hc : p c = true)
    (rest : List Char) : (c :: rest).count '-' = (rest.dropWhile p).count '-' := by
  have hnone : (c :: rest.takeWhile p).count '-' = 0 := by
    refine List.count_eq_zero.2 fun hmem => ?_
    have hin : p '-' = true := by
      rcases List.mem_cons.1 hmem with rfl | hmem
      · exact hc
      · exact List.mem_takeWhile_imp hmem
    rw [hminus] at hin
    cases hin
  calc (c :: rest).count '-' = (c :: rest.takeWhile p ++ rest.dropWhile p).count '-' := by
        rw [List.cons_append, List.takeWhile_append_dropWhile]
    _ = (rest.dropWhile p).count '-' := by rw [List.count_append, hnone, Nat.zero_add]

/-- Each minus character is a lexeme of its own. -/
theorem count_sub_read (s : List Char) : (read s).count (sign .sub) = s.count '-' := by
  fun_induction read s with
  | case1 => rfl
  | case2 c rest hn ih =>
    rw [count_minus_of_run (by decide) (isNumeric_of_beginsNumber hn), ← ih]
    exact List.count_cons_of_ne (by simp)
  | case3 c rest hn ha ih =>
    rw [count_minus_of_run (by decide) ha, ← ih]
    refine List.count_cons_of_ne ?_
    unfold ofWord
    split <;> simp
  | case4 c rest hn ha ih =>
    rw [List.count_append, count_sub_ofChar?, ih, List.count_cons, Nat.add_comm]

end Lexeme

namespace Token

/-! ## Places -/

/-- A token at a place, between the tokens before and after it. -/
theorem exists_append_of_getElem? {tokens : List Token} {i : Nat} {t : Token}
    (h : tokens[i]? = some t) : ∃ before after, tokens = before ++ t :: after ∧ before.length = i := by
  obtain ⟨hi, rfl⟩ := List.getElem?_eq_some_iff.1 h
  refine ⟨tokens.take i, tokens.drop (i + 1), ?_, List.length_take_of_le hi.le⟩
  rw [← List.drop_eq_getElem_cons hi, List.take_append_drop]

/-- An operand is expected behind an opening parenthesis and behind an operator. -/
theorem opensOperand_eq_true_iff (t : Token) :
    t.opensOperand = true ↔ t.kind = .leftParen ∨ t.kind = .operator := by
  cases t <;> simp [opensOperand, kind]

/-- No operand is expected behind a number, a closing parenthesis and an identifier. -/
theorem opensOperand_eq_false_iff (t : Token) :
    t.opensOperand = false ↔ t.kind = .number ∨ t.kind = .rightParen ∨ t.kind = .identifier := by
  cases t <;> simp [opensOperand, kind]

/-- Among the tokens of a text a unary minus follows a zero that stands at the start, after an opening
parenthesis or after an operator; a minus that is not unary follows a number, a closing parenthesis or a
name; nothing else is unary; and there are as many minus tokens as minus characters in the text. -/
theorem minus_places (s : String) :
    (∀ (i : Nat) (t : Token), (tokenize s)[i]? = some t → t.isMinus = true → t.isUnary = true →
      0 < i ∧ (tokenize s)[i - 1]? = some (.number "0" (some 0)) ∧
        (i = 1 ∨ 1 < i ∧ ∃ u : Token, (tokenize s)[i - 2]? = some u ∧
          (u.kind = .leftParen ∨ u.kind = .operator))) ∧
    (∀ (i : Nat) (t : Token), (tokenize s)[i]? = some t → t.isMinus = true → t.isUnary = false →
      0 < i ∧ ∃ u : Token, (tokenize s)[i - 1]? = some u ∧
        (u.kind = .number ∨ u.kind = .rightParen ∨ u.kind = .identifier)) ∧
    (∀ t ∈ tokenize s, t.isUnary = true → t.isMinus = true) ∧
    (tokenize s).countP isMinus = s.toList.count '-' := by
  have hzero : ofLiteral "0" = .number "0" (some 0) := by decide +kernel
  rw [tokenize_eq]
  refine ⟨?_, ?_, ?_, ?_⟩
  · intro i t hi hminus hunary
    obtain ⟨before, after, htokens, rfl⟩ := exists_append_of_getElem? hi
    obtain ⟨-, front, rfl, hexpected⟩ := Lexeme.exists_of_isUnary htokens hunary
    rw [htokens, hzero, List.length_append, List.length_singleton]
    refine ⟨Nat.succ_pos _, by simp, ?_⟩
    rcases List.eq_nil_or_concat front with rfl | ⟨init, u, rfl⟩
    · exact .inl rfl
    · rw [List.concat_eq_append, operandAfter, List.getLast?_concat] at hexpected
      refine .inr ⟨by simp, u, by simp, (opensOperand_eq_true_iff u).1 hexpected⟩
  · intro i t hi hminus hunary
    obtain ⟨before, after, htokens, rfl⟩ := exists_append_of_getElem? hi
    have hexpected := Lexeme.operandAfter_of_isMinus htokens hminus hunary
    rw [htokens]
    rcases List.eq_nil_or_concat before with rfl | ⟨init, u, rfl⟩
    · cases hexpected
    · rw [List.concat_eq_append, operandAfter, List.getLast?_concat] at hexpected
      exact ⟨by simp, u, by simp, (opensOperand_eq_false_iff u).1 hexpected⟩
  · intro t ht hunary
    obtain ⟨before, after, htokens⟩ := List.append_of_mem ht
    rw [(Lexeme.exists_of_isUnary htokens hunary).1]
    rfl
  · rw [Lexeme.countP_isMinus_tokenList, lexemes, Lexeme.count_sub_read]

/-- Two minus signs at the start, the second one after the first, and one after a closing parenthesis. -/
theorem minus_places_chained :
    ((tokenize "- -2)-1")[3]? = some (.operator .unaryMinus) ∧
        (tokenize "- -2)-1")[2]? = some (.number "0" (some 0)) ∧
        ∃ u : Token, (tokenize "- -2)-1")[1]? = some u ∧ (u.kind = .leftParen ∨ u.kind = .operator)) ∧
      (tokenize "- -2)-1")[6]? = some (.operator (.binary .sub)) ∧
        ∃ u : Token, (tokenize "- -2)-1")[5]? = some u ∧
          (u.kind = .number ∨ u.kind = .rightParen ∨ u.kind = .identifier) := by
  obtain ⟨hunary, hbinary, -, -⟩ := minus_places "- -2)-1"
  have hsecond : (tokenize "- -2)-1")[3]? = some (.operator .unaryMinus) := by decide +kernel
  have hthird : (tokenize "- -2)-1")[6]? = some (.operator (.binary .sub)) := by decide +kernel
  obtain ⟨-, hzero, hfirst⟩ := hunary 3 _ hsecond rfl rfl
  exact ⟨⟨hsecond, hzero, (hfirst.resolve_left (by decide)).2⟩, hthird, (hbinary 6 _ hthird rfl rfl).2⟩

end Token

end DeskCalculator
