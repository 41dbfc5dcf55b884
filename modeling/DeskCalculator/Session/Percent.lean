import DeskCalculator.Decimal.Layout
import DeskCalculator.Numeral

/-!
# Percent

The percent key replaces the number at the end of the line by a hundredth of it in parentheses. The
number is the longest piece at the end that consists of digits, then possibly a point, then possibly more
digits; digits of all scripts count. One line feed at the very end is passed over and goes away with the
number.

The piece is found from the end: first the last run of digits, and if a point stands before it and digits
before the point, all of these.
-/

namespace DeskCalculator.Percent

/-- The line without one final line feed. -/
def withoutFinalNewline (line : List Char) : List Char :=
  if line.getLast? = some '\n' then line.dropLast else line

/-- The number at the end of a line given backwards, also backwards; empty if there is none. -/
def trailingBackwards (line : List Char) : List Char :=
  let last := line.takeWhile Text.isDigit
  match line.dropWhile Text.isDigit with
  | '.' :: rest =>
    let whole := rest.takeWhile Text.isDigit
    if whole.isEmpty then last else last ++ '.' :: whole
  | _ => last

/-- The line split in front of the number at its end, if there is one. -/
def split? (line : List Char) : Option (List Char × List Char) :=
  let backwards := (withoutFinalNewline line).reverse
  let number := trailingBackwards backwards
  if number.isEmpty then none
  else some ((backwards.drop number.length).reverse, number.reverse)

/-- The text that replaces a number. -/
def replacement (number : List Char) : List Char :=
  let value := ((Numeral.parse? number).map Numeral.value).getD 0
  '(' :: (Layout.plain.text (value / 100)).toList ++ [')']

/-- The line after the percent key. -/
def apply (line : String) : String :=
  match split? line.toList with
  | some (before, number) => String.ofList (before ++ replacement number)
  | none => line

end DeskCalculator.Percent
