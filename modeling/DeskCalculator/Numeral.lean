import DeskCalculator.Binary64
import DeskCalculator.Text.Blank
import DeskCalculator.Text.Digit
import DeskCalculator.Text.Quoted

/-!
# Numerals

How text is read as a double. A numeral is an optional sign and then either `inf`, `infinity` or `nan`
in any case, or decimal digits with at most one point and at least one digit, followed by an optional
exponent. Single underscores may stand between digits, digits of every script count, and blank space may
surround the whole. The value is the double nearest to what is written.

`Numeral.read` adds the rule for literals in expressions: a text with two or more points, or with nothing
but a point, is a numeral without a value.
-/

namespace DeskCalculator

/-- A numeral as written. -/
inductive Numeral where
  | finite (negative : Bool) (value : Decimal)
  | infinite (negative : Bool)
  | nan
  deriving DecidableEq, Repr

namespace Numeral

/-- The double nearest to the written value. -/
def value : Numeral → Float
  | finite negative d => Binary64.ofDecimal negative d
  | infinite negative => Binary64.infinity negative
  | nan => Binary64.undefined

/-! ## Preparation -/

/-- Digits of other scripts become `0` to `9` and blank characters become spaces. A text of ASCII
characters alone is left as it is, so its information separators do not count as blank. Any other
character beyond ASCII stays and is refused later. -/
def toAscii (s : List Char) : List Char :=
  if s.all (·.toNat < 128) then s
  else s.map fun c =>
    if c.toNat < 127 then c
    else if Text.isBlank c then ' '
    else match Text.digit? c with
      | some d => Nat.digitChar d
      | none => c

/-- The blank characters of ASCII that may surround a numeral. -/
def isPadding (c : Char) : Bool :=
  c = ' ' || (9 ≤ c.toNat && c.toNat ≤ 13)

/-- Removes the padding at both ends. -/
def trim (s : List Char) : List Char :=
  ((s.dropWhile isPadding).reverse.dropWhile isPadding).reverse

/-- Removes the underscores if each stands between two digits, and refuses the text otherwise;
`afterDigit` says whether a digit stands to the left. -/
def dropUnderscores (afterDigit : Bool) : List Char → Option (List Char)
  | [] => some []
  | '_' :: rest =>
    match rest with
    | c :: _ => if afterDigit && c.isDigit then dropUnderscores false rest else none
    | [] => none
  | c :: rest => (dropUnderscores c.isDigit rest).map (c :: ·)

/-! ## The grammar -/

/-- The optional sign, and what follows it; `true` for a minus. -/
def takeSign : List Char → Bool × List Char
  | '-' :: rest => (true, rest)
  | '+' :: rest => (false, rest)
  | s => (false, s)

/-- The natural number written by ASCII digits. -/
def ofDigits (s : List Char) : Nat :=
  s.foldl (fun n c => 10 * n + (c.toNat - '0'.toNat)) 0

/-- The optional exponent at the end of a numeral. -/
def exponent? : List Char → Option Int
  | [] => some 0
  | c :: rest =>
    let (negative, digits) := takeSign rest
    if (c = 'e' || c = 'E') && !digits.isEmpty && digits.all Char.isDigit then
      some (if negative then -(ofDigits digits : Int) else (ofDigits digits : Int))
    else none

/-- Digits with at most one point and an optional exponent. -/
def decimal? (s : List Char) : Option Decimal :=
  let whole := s.takeWhile Char.isDigit
  let rest := s.dropWhile Char.isDigit
  let (fraction, tail) := match rest with
    | '.' :: r => (r.takeWhile Char.isDigit, r.dropWhile Char.isDigit)
    | _ => ([], rest)
  if whole.isEmpty && fraction.isEmpty then none
  else (exponent? tail).map fun e => ⟨ofDigits (whole ++ fraction), e - fraction.length⟩

/-- A numeral in ASCII without padding and underscores. -/
def ofAscii? (s : List Char) : Option Numeral :=
  let (negative, body) := takeSign s
  let name := body.map Char.toLower
  if name = "inf".toList ∨ name = "infinity".toList then some (infinite negative)
  else if name = "nan".toList then some nan
  else (decimal? body).map (finite negative)

/-- The numeral that a text writes, if it writes one. -/
def parse? (s : List Char) : Option Numeral :=
  (dropUnderscores false (trim (toAscii s))).bind ofAscii?

/-! ## Literals -/

/-- Two or more points, or nothing but a point: such a literal is accepted and has no value. -/
def isMalformed (s : List Char) : Bool :=
  1 < s.count '.' || s = ['.']

/-- A text that is no numeral. -/
structure Unreadable where
  text : String
  deriving DecidableEq, Repr

/-- The wording of the refusal of a text that is no numeral. -/
def Unreadable.message (u : Unreadable) : String :=
  s!"could not convert string to float: {Text.quoted u.text}"

/-- The value of a literal; `none` for a malformed one. -/
def read (text : String) : Except Unreadable (Option Float) :=
  if isMalformed text.toList then .ok none
  else match parse? text.toList with
    | some n => .ok (some n.value)
    | none => .error ⟨text⟩

/-- The value of a literal; `none` also for a text that is no numeral. -/
def read? (text : String) : Option Float :=
  match read text with
  | .ok value => value
  | .error _ => none

/-- The value of a whole text, which may not be malformed either. -/
def float? (text : String) : Option Float :=
  (parse? text.toList).map value

end Numeral

end DeskCalculator
