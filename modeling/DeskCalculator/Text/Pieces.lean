/-!
# Pieces between separators

A text with `n` separators has `n + 1` pieces, some of which may be empty. Joined by the separator they give
the text again.
-/

namespace DeskCalculator.Text

/-- The pieces of a text between the separators. -/
def pieces (separator : Char) : List Char → List (List Char)
  | [] => [[]]
  | c :: rest =>
    if c = separator then [] :: pieces separator rest
    else match pieces separator rest with
      | piece :: more => (c :: piece) :: more
      | [] => [[c]]

/-- There is always a piece. -/
theorem pieces_ne_nil (separator : Char) (s : List Char) : pieces separator s ≠ [] := by
  cases s with
  | nil => exact List.cons_ne_nil _ _
  | cons c rest =>
    rw [pieces]
    split
    · exact List.cons_ne_nil _ _
    · split <;> exact List.cons_ne_nil _ _

/-- Joined by the separator the pieces give the text again. -/
theorem intercalate_pieces (separator : Char) (s : List Char) :
    [separator].intercalate (pieces separator s) = s := by
  induction s with
  | nil => rfl
  | cons c rest ih =>
    rw [pieces]
    have ne := pieces_ne_nil separator rest
    split
    · rename_i h
      cases hp : pieces separator rest with
      | nil => exact absurd hp ne
      | cons piece more => rw [hp] at ih; simp [List.intercalate, List.intersperse, h] at ih ⊢; exact ih
    · cases hp : pieces separator rest with
      | nil => exact absurd hp ne
      | cons piece more =>
        rw [hp] at ih
        cases more <;> simp [List.intercalate, List.intersperse] at ih ⊢ <;> exact ih

end DeskCalculator.Text
