import DeskCalculator.Expression
import DeskCalculator.Proofs.Lexeme

/-!
# Spacing inside an expression

Characters that belong to nothing may be put anywhere in an expression except inside a number or a word.
`Expression.spacing` says that such a character changes neither the tokens nor the outcome, wherever it is
not put between two letters or between two characters of numbers.

The one condition on the outcome comes from blank texts, which are worth zero without having tokens. A
character that is passed over without being blank, such as a dollar sign, makes a blank text one that is not
blank.
-/

namespace DeskCalculator

/-- A character that is passed over wherever it stands: no letter, no digit, no point, and none of the
signs and parentheses. -/
def Token.isFiller (c : Char) : Bool :=
  !(c.isAlpha || c.isDigit || ['.', '+', '-', '*', '/', '^', '(', ')', '×', '÷'].contains c)

namespace Lexeme

/-- A filler is of no number and no word, and is no lexeme either. -/
theorem other_of_isFiller {c : Char} (h : Token.isFiller c = true) :
    c.isAlpha = false ∧ Token.isNumeric c = false ∧ ofChar? c = none := by
  simp only [Token.isFiller, Bool.not_eq_true', Bool.or_eq_false_iff] at h
  obtain ⟨⟨halpha, hdigit⟩, hlisted⟩ := h
  refine ⟨halpha, ?_, ?_⟩
  · have hpoint : c ≠ '.' := by
      rintro rfl
      simp at hlisted
    simp [Token.isNumeric, hdigit, hpoint]
  · unfold ofChar?
    split
    all_goals first | rfl | simp at hlisted

/-- A filler leaves no lexeme, and what stands on its two sides is read apart. -/
theorem read_filler {c : Char} (h : Token.isFiller c = true) (xs ys : List Char) :
    read (xs ++ c :: ys) = read xs ++ read ys := by
  obtain ⟨halpha, hnumeric, hchar⟩ := other_of_isFiller h
  rw [read_append_cons halpha hnumeric, hchar]
  rfl

end Lexeme

namespace Text

/-- A text stays blank only if what is put into it is blank. -/
theorem allBlank_insert (pre post : String) (c : Char) :
    allBlank (pre ++ String.singleton c ++ post) = (allBlank (pre ++ post) && isBlank c) := by
  simp only [allBlank, String.toList_append, String.toList_singleton, List.all_append, List.all_cons,
    List.all_nil, Bool.and_true]
  rw [Bool.and_assoc, Bool.and_comm (isBlank c), Bool.and_assoc]

end Text

namespace Expression

/-- A filler that is put where no number and no word goes on leaves the tokens as they are, and also the
outcome, if the text is not blank or the filler is. -/
theorem spacing {pre post : String} {c : Char} (hc : Token.isFiller c = true)
    (hcut : Lexeme.Separate pre.toList post.toList) :
    Token.tokenize (pre ++ String.singleton c ++ post) = Token.tokenize (pre ++ post) ∧
      (Text.allBlank (pre ++ post) = false ∨ Text.isBlank c = true →
        ∀ (a : Arithmetic) (mode : AngleMode),
          evaluate a mode (pre ++ String.singleton c ++ post) = evaluate a mode (pre ++ post)) := by
  have htokens : Token.tokenize (pre ++ String.singleton c ++ post) = Token.tokenize (pre ++ post) := by
    have hlist : (pre ++ String.singleton c ++ post).toList = pre.toList ++ c :: post.toList := by simp
    rw [tokenize_eq, tokenize_eq, lexemes, lexemes, hlist, Lexeme.read_filler hc, String.toList_append,
      Lexeme.read_append hcut]
  refine ⟨htokens, ?_⟩
  intro hblank a mode
  have hsame : Text.allBlank (pre ++ String.singleton c ++ post) = Text.allBlank (pre ++ post) := by
    rw [Text.allBlank_insert]
    rcases hblank with hblank | hblank
    · rw [hblank, Bool.false_and]
    · rw [hblank, Bool.and_true]
  rw [evaluate, evaluate, hsame, Program.compile, Program.compile, htokens]

/-- A no-break space between the two minus signs of `3--2`, a dollar sign between a number and the sign `x`,
and a tab in a text that is blank already. -/
theorem spacing_signs_and_blanks :
    (Token.isFiller '\u00A0' = true ∧ Lexeme.Separate "3-".toList "-2".toList ∧
        Token.tokenize ("3-" ++ String.singleton '\u00A0' ++ "-2") = Token.tokenize ("3-" ++ "-2")) ∧
      (Text.allBlank ("2." ++ "x.5") = false ∧
        evaluate .ieee .degrees ("2." ++ String.singleton '$' ++ "x.5") =
          evaluate .ieee .degrees ("2." ++ "x.5")) ∧
      Text.isBlank '\t' = true ∧
        evaluate .ieee .radians ("" ++ String.singleton '\t' ++ " ") =
          evaluate .ieee .radians ("" ++ " ") := by
  have hminus : Lexeme.Separate "3-".toList "-2".toList := by simp [Lexeme.Separate, Token.isNumeric]
  have hglyph : Lexeme.Separate "2.".toList "x.5".toList := by simp [Lexeme.Separate, Token.isNumeric]
  have hempty : Lexeme.Separate "".toList " ".toList := by simp [Lexeme.Separate]
  have hfull : Text.allBlank ("2." ++ "x.5") = false := by decide +kernel
  exact ⟨⟨by decide +kernel, hminus, (spacing (by decide +kernel) hminus).1⟩,
    ⟨hfull, (spacing (by decide +kernel) hglyph).2 (.inl hfull) _ _⟩,
    by decide +kernel, (spacing (by decide +kernel) hempty).2 (.inr (by decide +kernel)) _ _⟩

end Expression

end DeskCalculator
