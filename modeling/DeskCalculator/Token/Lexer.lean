import DeskCalculator.Token.Basic

/-!
# From text to tokens

Reading never fails. A number is a longest run of digits and points that begins with a digit, or with a
point before a digit; whether it has one point or several is not asked here. A word is a longest run of
letters; the word `x` and the signs `×` and `÷` are other ways to write `*` and `/`. Characters that
belong to nothing are passed over.

A minus begins an operand at the start, after `(` and after an operator, whatever is passed over in
between. It is read as `0 -` with the unary operator.
-/

namespace DeskCalculator.Token

/-- The characters that continue a number. -/
def isNumeric (c : Char) : Bool :=
  c.isDigit || c = '.'

/-- Whether a number begins with `c`, when `rest` follows. -/
def beginsNumber (c : Char) (rest : List Char) : Bool :=
  c.isDigit || (c = '.' && (rest.head?.map Char.isDigit).getD false)

/-- The word `x` is a multiplication sign; every other word is a name. -/
def ofWord (word : List Char) : Token :=
  if word = ['x'] then operator (.binary .mul) else identifier (String.ofList word)

/-- The tokens written by a single character that is neither a digit, a point, a letter nor a minus. -/
def ofSign : Char → List Token
  | '+' => [operator (.binary .add)]
  | '*' | '×' => [operator (.binary .mul)]
  | '/' | '÷' => [operator (.binary .div)]
  | '^' => [operator (.binary .pow)]
  | '(' => [leftParen]
  | ')' => [rightParen]
  | _ => []

/-- The tokens written by a minus. -/
def ofMinus (operandNext : Bool) : List Token :=
  if operandNext then [ofLiteral "0", operator .unaryMinus] else [operator (.binary .sub)]

/-- Whether an operand is expected after the tokens, if it was expected before them when
`operandNext`. -/
def operandAfter (operandNext : Bool) (tokens : List Token) : Bool :=
  (tokens.getLast?.map opensOperand).getD operandNext

/-- The tokens of a text; `operandNext` says whether a minus would begin an operand. -/
def scan (operandNext : Bool) : List Char → List Token
  | [] => []
  | c :: rest =>
    if beginsNumber c rest then
      ofLiteral (String.ofList (c :: rest.takeWhile isNumeric)) ::
        scan false (rest.dropWhile isNumeric)
    else if c.isAlpha then
      let word := ofWord (c :: rest.takeWhile Char.isAlpha)
      word :: scan word.opensOperand (rest.dropWhile Char.isAlpha)
    else
      let tokens := if c = '-' then ofMinus operandNext else ofSign c
      tokens ++ scan (operandAfter operandNext tokens) rest
  termination_by s => s.length
  decreasing_by
    · exact Nat.lt_succ_of_le (List.dropWhile_suffix _).length_le
    · exact Nat.lt_succ_of_le (List.dropWhile_suffix _).length_le
    · exact Nat.lt_succ_self _

@[simp] theorem scan_nil (operandNext : Bool) : scan operandNext [] = [] := by
  rw [scan]

/-- Where a number begins, the longest run of its characters is one token. -/
theorem scan_of_beginsNumber {operandNext : Bool} {c : Char} {rest : List Char}
    (h : beginsNumber c rest = true) :
    scan operandNext (c :: rest) =
      ofLiteral (String.ofList (c :: rest.takeWhile isNumeric)) ::
        scan false (rest.dropWhile isNumeric) := by
  rw [scan, if_pos h]

/-- Where a word begins, the longest run of letters is one token. -/
theorem scan_of_isAlpha {operandNext : Bool} {c : Char} {rest : List Char} (h : c.isAlpha = true)
    (hn : beginsNumber c rest = false) :
    scan operandNext (c :: rest) =
      ofWord (c :: rest.takeWhile Char.isAlpha) ::
        scan (ofWord (c :: rest.takeWhile Char.isAlpha)).opensOperand (rest.dropWhile Char.isAlpha) := by
  rw [scan, if_neg (by simp [hn]), if_pos h]

/-- A minus is a token of its own, or two. -/
theorem scan_minus (operandNext : Bool) (rest : List Char) :
    scan operandNext ('-' :: rest) = ofMinus operandNext ++ scan true rest := by
  rw [scan, if_neg (by simp [beginsNumber]), if_neg (by decide)]
  cases operandNext <;> rfl

/-- A character that belongs to nothing is passed over. -/
theorem scan_of_ofSign_eq_nil {operandNext : Bool} {c : Char} {rest : List Char}
    (hn : beginsNumber c rest = false) (ha : c.isAlpha = false) (hm : c ≠ '-')
    (hs : ofSign c = []) : scan operandNext (c :: rest) = scan operandNext rest := by
  rw [scan, if_neg (by simp [hn]), if_neg (by simp [ha])]
  simp [hm, hs, operandAfter]

/-- The tokens of an expression. -/
def tokenize (s : String) : List Token :=
  scan true s.toList

end DeskCalculator.Token
