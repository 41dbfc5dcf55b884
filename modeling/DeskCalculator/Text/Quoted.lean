import DeskCalculator.Text.Printable

/-!
# Quoted text

How messages show a piece of text: between single quotes, with a backslash before the quote and the
backslash itself, short escapes for line feed, carriage return and tab, and a hexadecimal escape for
every other character that is not printable. Text that holds a single quote and no double quote is
put between double quotes instead. Bytes are shown in the same way after a `b`; only those of ASCII are
printable.
-/

namespace DeskCalculator.Text

/-- The `width` lower-case hexadecimal digits of `n`, with leading zeros. -/
def hexDigits (width n : Nat) : List Char :=
  let digits := Nat.toDigits 16 n
  List.replicate (width - digits.length) '0' ++ digits

/-- The quote that surrounds a text: a double quote iff the text holds a single quote and no double one. -/
def quoteFor (s : List Char) : Char :=
  if s.contains '\x27' && !s.contains '"' then '"' else '\x27'

/-- One character between quotes of the given kind, if it counts as printable or not. -/
def escaped (printable : Char → Bool) (quote c : Char) : List Char :=
  if c = quote || c = '\\' then ['\\', c]
  else if c = '\n' then ['\\', 'n']
  else if c = '\r' then ['\\', 'r']
  else if c = '\t' then ['\\', 't']
  else if printable c then [c]
  else if c.toNat < 0x100 then '\\' :: 'x' :: hexDigits 2 c.toNat
  else if c.toNat < 0x10000 then '\\' :: 'u' :: hexDigits 4 c.toNat
  else '\\' :: 'U' :: hexDigits 8 c.toNat

/-- Characters between quotes, with escapes. -/
def quotedChars (printable : Char → Bool) (s : List Char) : List Char :=
  quoteFor s :: s.flatMap (escaped printable (quoteFor s)) ++ [quoteFor s]

/-- The text between quotes, with escapes. -/
def quoted (s : String) : String :=
  String.ofList (quotedChars isPrintable s.toList)

/-- How messages show bytes. -/
def quotedBytes (bytes : List UInt8) : String :=
  let chars := bytes.map fun b => Char.ofNat b.toNat
  String.ofList ('b' :: quotedChars (fun c => ' ' ≤ c && c ≤ '~') chars)

example : quoted "it's" = "\"it's\"" := by decide +kernel

example : quotedBytes [0x65, 0xC3] = "b'e\\xc3'" := by decide +kernel

example : quoted "a'b\"c\\\n" = "'a\\'b\"c\\\\\\n'" := by decide +kernel

end DeskCalculator.Text
