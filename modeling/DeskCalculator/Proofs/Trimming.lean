import DeskCalculator.Expression
import DeskCalculator.Proofs.Lexeme

/-!
# Blank space around an expression

Blank space at the ends of a text changes neither its lexemes nor whether it is blank, so the trimmed text
has the outcome of the text (`Expression.evaluate_trimmed`). Inside an expression this is another matter:
there it separates numbers and words.
-/

namespace DeskCalculator

/-- A text is its trimmed form between two blank pieces. -/
theorem Text.exists_eq_append_strip (s : List Char) :
    ∃ before after, s = before ++ strip s ++ after ∧ (∀ c ∈ before, isBlank c = true) ∧
      ∀ c ∈ after, isBlank c = true := by
  refine ⟨s.takeWhile isBlank, ((s.dropWhile isBlank).reverse.takeWhile isBlank).reverse, ?_, ?_, ?_⟩
  · calc s = s.takeWhile isBlank ++ (s.dropWhile isBlank).reverse.reverse := by
          rw [List.reverse_reverse, List.takeWhile_append_dropWhile]
      _ = s.takeWhile isBlank ++ ((s.dropWhile isBlank).reverse.takeWhile isBlank ++
            (s.dropWhile isBlank).reverse.dropWhile isBlank).reverse := by
          rw [List.takeWhile_append_dropWhile]
      _ = _ := by rw [List.reverse_append, ← List.append_assoc, strip]
  · intro c hc
    exact List.mem_takeWhile_imp hc
  · intro c hc
    exact List.mem_takeWhile_imp (List.mem_reverse.1 hc)

namespace Lexeme

/-- A blank character stands apart from every other one. -/
theorem separate_of_blank {xs ys : List Char}
    (h : (∀ c ∈ xs, Text.isBlank c = true) ∨ ∀ c ∈ ys, Text.isBlank c = true) : Separate xs ys := by
  intro a ha b hb
  rcases h with h | h
  · obtain ⟨halpha, hnumeric, -⟩ := other_of_isBlank (h a (List.mem_of_getLast? ha))
    simp [halpha, hnumeric]
  · obtain ⟨halpha, hnumeric, -⟩ := other_of_isBlank (h b (List.mem_of_head? hb))
    simp [halpha, hnumeric]

/-- Blank space at both ends holds no lexeme. -/
theorem read_strip (s : List Char) : read (Text.strip s) = read s := by
  obtain ⟨before, after, hs, hbefore, hafter⟩ := Text.exists_eq_append_strip s
  calc read (Text.strip s) = read before ++ read (Text.strip s) ++ read after := by
        rw [read_eq_nil_of_blank hbefore, read_eq_nil_of_blank hafter, List.nil_append, List.append_nil]
    _ = read (before ++ Text.strip s) ++ read after := by rw [read_append (separate_of_blank (.inl hbefore))]
    _ = read (before ++ Text.strip s ++ after) := by rw [read_append (separate_of_blank (.inr hafter))]
    _ = read s := by rw [← hs]

end Lexeme

/-- Blanks around a text do not make it blank or less so. -/
theorem Text.allBlank_trimmed (text : String) : allBlank (trimmed text) = allBlank text := by
  obtain ⟨before, after, hs, hbefore, hafter⟩ := exists_eq_append_strip text.toList
  rw [allBlank, allBlank, trimmed, String.toList_ofList]
  conv_rhs => rw [hs, List.all_append, List.all_append, List.all_eq_true.2 hbefore,
    List.all_eq_true.2 hafter, Bool.true_and, Bool.and_true]

/-- Blank space around an expression does not change its outcome. -/
theorem Expression.evaluate_trimmed (a : Arithmetic) (mode : AngleMode) (text : String) :
    evaluate a mode (Text.trimmed text) = evaluate a mode text := by
  have htokens : Token.tokenize (Text.trimmed text) = Token.tokenize text := by
    rw [tokenize_eq, tokenize_eq, lexemes, lexemes, Text.trimmed, String.toList_ofList, Lexeme.read_strip]
  rw [evaluate, evaluate, Text.allBlank_trimmed, Program.compile, Program.compile, htokens]

end DeskCalculator
