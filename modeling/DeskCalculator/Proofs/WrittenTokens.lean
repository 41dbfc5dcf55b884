import DeskCalculator.Proofs.Spacing

/-!
# Tokens as they are written

Of the tokens of a text only the zeros in front of unary minus signs are not written in it. `Token.written`
leaves them out, and `Token.spaced` writes tokens one after the other with a space between any two. The
text that it makes of the written tokens of a text has the same tokens as the text itself, the zeros and the
unary marks included: `tokenize_spaced_written`.

Each written token is the text of one lexeme (`texts_written`), and such a text is read as this lexeme
alone (`read_text_of_mem`). This is not so of every literal: `..5` has digits and points only, but no text
has it as a lexeme.
-/

namespace DeskCalculator

/-- The tokens that are written in a text: all but the numbers right before unary operators. -/
def Token.written : List Token → List Token
  | [] => []
  | t :: ts =>
    if t.kind = .number ∧ ts.head?.any isUnary = true then written ts else t :: written ts

/-- The texts of tokens, with a space between any two. -/
def Token.spaced (tokens : List Token) : String :=
  " ".intercalate (tokens.map text)

namespace Lexeme

/-- A lexeme as text; of the spellings of `*` and `/` these two. -/
def text : Lexeme → String
  | number l => l.text
  | name w => w.text
  | sign op => op.symbol
  | opening => "("
  | closing => ")"

/-! ## The written tokens are the lexemes -/

/-- The tokens of a text do not begin with a unary operator: the zero stands before it. -/
theorem any_isUnary_head?_tokenList (operandNext : Bool) (ls : List Lexeme) :
    (tokenList operandNext ls).head?.any Token.isUnary = false := by
  cases ls with
  | nil => rfl
  | cons l ls =>
    cases l with
    | sign op =>
      cases op with
      | sub => cases operandNext <;> rfl
      | _ => rfl
    | _ => rfl

/-- A token in front of one that is not unary is written. -/
theorem written_cons {t : Token} {ts : List Token} (h : ts.head?.any Token.isUnary = false) :
    Token.written (t :: ts) = t :: Token.written ts := by
  rw [Token.written, if_neg]
  rintro ⟨-, hunary⟩
  rw [h] at hunary
  exact Bool.false_ne_true hunary

/-- One lexeme writes one token. -/
theorem texts_written_append (operandNext : Bool) (l : Lexeme) {ts : List Token}
    (h : ts.head?.any Token.isUnary = false) :
    (Token.written (l.tokens operandNext ++ ts)).map Token.text =
      l.text :: (Token.written ts).map Token.text := by
  cases l with
  | sign op =>
    cases op with
    | sub =>
      cases operandNext with
      | false => exact congrArg _ (written_cons h)
      | true =>
        -- the zero is left out, and the minus stands before the rest
        show (Token.written (Token.operator .unaryMinus :: ts)).map Token.text = _
        exact congrArg _ (written_cons h)
    | _ => exact congrArg _ (written_cons h)
  | _ => exact congrArg _ (written_cons h)

/-- Of the tokens of lexemes the texts of the lexemes are written. -/
theorem texts_written (operandNext : Bool) (ls : List Lexeme) :
    (Token.written (tokenList operandNext ls)).map Token.text = ls.map text := by
  induction ls generalizing operandNext with
  | nil => rfl
  | cons l ls ih =>
    rw [tokenList, texts_written_append operandNext l (any_isUnary_head?_tokenList _ ls), ih,
      List.map_cons]

/-! ## Where a token comes from -/

/-- A token is one of those of a lexeme, and the tokens before it are those of the lexemes before that, and
perhaps some of the same lexeme. -/
theorem exists_of_tokenList_eq_append {operandNext : Bool} {ls : List Lexeme} {before after : List Token}
    {t : Token} (h : tokenList operandNext ls = before ++ t :: after) :
    ∃ left l right xs ys, ls = left ++ l :: right ∧
      l.tokens (operandAfter operandNext left) = xs ++ t :: ys ∧
      before = tokenList operandNext left ++ xs ∧ after = ys ++ tokenList l.opensOperand right := by
  induction ls generalizing operandNext before with
  | nil => simp [tokenList] at h
  | cons m ls ih =>
    have hsplit : (∃ later, before = m.tokens operandNext ++ later ∧
          tokenList m.opensOperand ls = later ++ t :: after) ∨
        ∃ ys, m.tokens operandNext = before ++ t :: ys ∧ after = ys ++ tokenList m.opensOperand ls := by
      rcases List.append_eq_append_iff.1 h with hlater | ⟨rest, htokens, hrest⟩
      · exact .inl hlater
      · cases rest with
        | nil => exact .inl ⟨[], by simpa using htokens.symm, hrest.symm⟩
        | cons u ys =>
          obtain ⟨rfl, rfl⟩ := List.cons.inj hrest
          exact .inr ⟨ys, htokens, rfl⟩
    rcases hsplit with ⟨later, rfl, hlater⟩ | ⟨ys, htokens, rfl⟩
    · obtain ⟨left, l, right, xs, ys, rfl, htokens, rfl, rfl⟩ := ih hlater
      refine ⟨m :: left, l, right, xs, ys, rfl, ?_, ?_, rfl⟩
      · rw [operandAfter_cons]
        exact htokens
      · rw [tokenList, List.append_assoc]
    · exact ⟨[], m, ls, before, ys, rfl, htokens, rfl, rfl⟩

/-- The tokens of a lexeme are a single one, or the two of a minus before which an operand is expected. -/
theorem tokens_eq_append_cons {l : Lexeme} {operandNext : Bool} {xs ys : List Token} {t : Token}
    (h : l.tokens operandNext = xs ++ t :: ys) :
    (xs = [] ∧ ys = [] ∧ l.tokens operandNext = [t]) ∨
      l = .sign .sub ∧ operandNext = true ∧
        (xs = [] ∧ t = .ofLiteral "0" ∧ ys = [.operator .unaryMinus] ∨
          xs = [.ofLiteral "0"] ∧ t = .operator .unaryMinus ∧ ys = []) := by
  have hone : ∀ {u : Token} {us : List Token}, [u] = us ++ t :: ys → us = [] ∧ u = t ∧ ys = [] := by
    intro u us hus
    rcases List.append_eq_singleton_iff.1 hus.symm with ⟨rfl, ht⟩ | ⟨-, ht⟩
    · obtain ⟨rfl, rfl⟩ := List.cons.inj ht
      exact ⟨rfl, rfl, rfl⟩
    · cases ht
  by_cases hsub : l = .sign .sub ∧ operandNext = true
  · obtain ⟨rfl, rfl⟩ := hsub
    refine .inr ⟨rfl, rfl, ?_⟩
    cases xs with
    | nil =>
      obtain ⟨rfl, rfl⟩ := List.cons.inj h
      exact .inl ⟨rfl, rfl, rfl⟩
    | cons u xs =>
      obtain ⟨rfl, hrest⟩ := List.cons.inj h
      obtain ⟨rfl, rfl, rfl⟩ := hone hrest
      exact .inr ⟨rfl, rfl, rfl⟩
  · obtain ⟨u, hu⟩ : ∃ u, l.tokens operandNext = [u] := by
      cases l with
      | sign op =>
        cases op with
        | sub => cases operandNext with
          | false => exact ⟨_, rfl⟩
          | true => exact absurd ⟨rfl, rfl⟩ hsub
        | _ => exact ⟨_, rfl⟩
      | _ => exact ⟨_, rfl⟩
    obtain ⟨rfl, rfl, rfl⟩ := hone (hu.symm.trans h)
    exact .inl ⟨rfl, rfl, hu⟩

/-! ## Runs on their own -/

/-- A run of digits and points is apart from what follows it. -/
theorem separate_takeWhile_isNumeric {c : Char} (hc : Token.isNumeric c = true) (rest : List Char) :
    Separate (c :: rest.takeWhile Token.isNumeric) (rest.dropWhile Token.isNumeric) := by
  intro a ha b hb
  have hnumeric : Token.isNumeric a = true := by
    rcases List.mem_cons.1 (List.mem_of_getLast? ha) with rfl | ha
    · exact hc
    · exact List.mem_takeWhile_imp ha
  have hstop : Token.isNumeric b = false := by
    have := List.head?_dropWhile_not Token.isNumeric rest
    rw [Option.mem_def.1 hb] at this
    simpa using this
  simp [hstop, Literal.isAlpha_of_isNumeric hnumeric]

/-- A run of letters is apart from what follows it. -/
theorem separate_takeWhile_isAlpha {c : Char} (hc : c.isAlpha = true) (rest : List Char) :
    Separate (c :: rest.takeWhile Char.isAlpha) (rest.dropWhile Char.isAlpha) := by
  intro a ha b hb
  have halpha : a.isAlpha = true := by
    rcases List.mem_cons.1 (List.mem_of_getLast? ha) with rfl | ha
    · exact hc
    · exact List.mem_takeWhile_imp ha
  have hstop : b.isAlpha = false := by
    have := List.head?_dropWhile_not Char.isAlpha rest
    rw [Option.mem_def.1 hb] at this
    simpa using this
  simp [hstop, Literal.isNumeric_of_isAlpha halpha]

/-- The run of a number alone is this number. -/
theorem read_takeWhile_isNumeric {c : Char} {rest : List Char} (h : Token.beginsNumber c rest = true) :
    read (c :: rest.takeWhile Token.isNumeric) = [number (.ofRun c rest h)] := by
  have hcut := read_append (separate_takeWhile_isNumeric (isNumeric_of_beginsNumber h) rest)
  rw [List.cons_append, List.takeWhile_append_dropWhile, read_of_beginsNumber h] at hcut
  exact List.append_cancel_right (hcut.symm.trans List.singleton_append.symm)

/-- Letters alone are one lexeme. -/
theorem read_letters {word : List Char} (h : ∀ c ∈ word, c.isAlpha = true) (hne : word ≠ []) :
    read word = [ofWord word h hne] := by
  obtain ⟨c, rest, rfl⟩ := List.exists_cons_of_ne_nil hne
  have hc : c.isAlpha = true := h c (by simp)
  have hn : Token.beginsNumber c rest = false :=
    beginsNumber_eq_false (Literal.isNumeric_of_isAlpha hc) rest
  have htake : rest.takeWhile Char.isAlpha = rest :=
    List.takeWhile_eq_self_iff.2 fun d hd => h d (by simp [hd])
  have hdrop : rest.dropWhile Char.isAlpha = [] :=
    List.dropWhile_eq_nil_iff.2 fun d hd => h d (by simp [hd])
  rw [read_of_isAlpha hc hn, hdrop, read_nil]
  simp only [htake]

/-! ## Reading what is written -/

/-- A sign or a parenthesis is read as what it is. -/
theorem read_text_of_ofChar? {c : Char} {l : Lexeme} (h : ofChar? c = some l) : read l.text.toList = [l] := by
  unfold ofChar? at h
  split at h
  all_goals cases h
  all_goals decide +kernel

/-- The text of a lexeme that is read off some text is read as this lexeme. -/
theorem read_text_of_mem {s : List Char} {l : Lexeme} (h : l ∈ read s) : read l.text.toList = [l] := by
  fun_induction read s with
  | case1 => simp at h
  | case2 c rest hn ih =>
    rcases List.mem_cons.1 h with rfl | h
    · rw [text, Literal.text_ofRun, String.toList_ofList, read_takeWhile_isNumeric hn]
    · exact ih h
  | case3 c rest hn ha ih =>
    rcases List.mem_cons.1 h with rfl | h
    · unfold ofWord
      split
      · exact read_text_of_ofChar? (c := '*') rfl
      next hx =>
        have hletters : ∀ d ∈ c :: rest.takeWhile Char.isAlpha, d.isAlpha = true := by
          simpa [ha] using fun d hd => List.mem_takeWhile_imp hd
        rw [text, String.toList_ofList, read_letters hletters (by simp), ofWord, dif_neg hx]
    · exact ih h
  | case4 c rest hn ha ih =>
    rcases List.mem_append.1 h with h | h
    · exact read_text_of_ofChar? (Option.mem_toList.1 h)
    · exact ih h

/-- Lexemes that are read as themselves are read off their texts with a space between any two. -/
theorem read_intercalate {ls : List Lexeme} (h : ∀ l ∈ ls, read l.text.toList = [l]) :
    read (" ".intercalate (ls.map text)).toList = ls := by
  have hspace : " ".toList = [' '] := by decide
  rw [String.toList_intercalate, hspace]
  induction ls with
  | nil => exact read_nil
  | cons l ls ih =>
    have hl : read l.text.toList = [l] := h l (by simp)
    have hrest := ih fun m hm => h m (by simp [hm])
    cases ls with
    | nil => simpa using hl
    | cons m ls =>
      simp only [List.map_cons] at hrest ⊢
      rw [List.intercalate_cons_cons, List.append_assoc, List.singleton_append,
        read_filler (by decide), hl, hrest, List.singleton_append]

end Lexeme

namespace Token

/-- The written tokens of a text, written with a space between any two, have the tokens of the text. -/
theorem tokenize_spaced_written (s : String) : tokenize (spaced (written (tokenize s))) = tokenize s := by
  have htexts : spaced (written (tokenize s)) = " ".intercalate ((lexemes s).map Lexeme.text) := by
    rw [spaced, tokenize_eq, Lexeme.texts_written]
  have hlexemes : lexemes (spaced (written (tokenize s))) = lexemes s := by
    rw [lexemes, htexts]
    exact Lexeme.read_intercalate fun l => Lexeme.read_text_of_mem
  rw [tokenize_eq, hlexemes, tokenize_eq]

end Token

end DeskCalculator
