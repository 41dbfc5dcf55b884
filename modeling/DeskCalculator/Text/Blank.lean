/-!
# Blank characters

White space in the sense of the Unicode property of that name, with the four information separators
`U+001C` to `U+001F`. Zero-width characters and the byte order mark are not blank.
-/

namespace DeskCalculator.Text

/-- White space: it separates and surrounds text without being part of it. -/
def isBlank (c : Char) : Bool :=
  let n := c.toNat
  (9 ≤ n && n ≤ 13) || (28 ≤ n && n ≤ 32) || n == 0x85 || n == 0xA0 || n == 0x1680 ||
    (0x2000 ≤ n && n ≤ 0x200A) || n == 0x2028 || n == 0x2029 || n == 0x202F || n == 0x205F ||
    n == 0x3000

/-- Removes the blank characters at both ends. -/
def strip (s : List Char) : List Char :=
  ((s.dropWhile isBlank).reverse.dropWhile isBlank).reverse

/-- A text of blank characters only; the empty text is one. -/
def allBlank (s : String) : Bool :=
  s.toList.all isBlank

/-- Removes the blank characters at both ends of a text. -/
def trimmed (s : String) : String :=
  String.ofList (strip s.toList)

theorem strip_nil : strip [] = [] := rfl

/-- Core's white space is blank. -/
theorem isBlank_of_isWhitespace {c : Char} (h : c.isWhitespace = true) : isBlank c = true := by
  simp only [Char.isWhitespace, Bool.or_eq_true, decide_eq_true_eq] at h
  rcases h with ((rfl | rfl) | rfl) | rfl <;> decide

end DeskCalculator.Text
