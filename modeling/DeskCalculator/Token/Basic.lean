import DeskCalculator.Arithmetic
import DeskCalculator.Numeral

/-!
# Tokens

The lexical units of an expression. A number keeps its text, because malformed literals are reported by
it; its value is absent exactly for those. A minus that begins an operand is the unary one: the lexer
writes a zero before it, and it binds tighter than every other operator.
-/

namespace DeskCalculator

/-- How tightly an operator binds, and to which side equal ones group. -/
structure Rank where
  precedence : Nat
  rightAssociative : Bool
  deriving DecidableEq, Repr

namespace Rank

/-- Whether an operator waiting on the left is applied before one of rank `next` on its right. -/
def goesBefore (waiting next : Rank) : Bool :=
  next.precedence < waiting.precedence ||
    (waiting.precedence == next.precedence && !next.rightAssociative)

/-- The rank of the unary minus. -/
def unaryMinus : Rank := ⟨5, true⟩

end Rank

/-- The rank of a binary operation: power groups to the right, all others to the left. -/
def BinaryOp.rank : BinaryOp → Rank
  | .add | .sub => ⟨2, false⟩
  | .mul | .div => ⟨3, false⟩
  | .pow => ⟨4, true⟩

/-- An operator as it stands in an expression. -/
structure Operator where
  symbol : String
  unary : Bool
  deriving DecidableEq, Repr

namespace Operator

/-- The rank of an operator, if its symbol is known; a unary one is ranked whatever its symbol. -/
def rank? (op : Operator) : Option Rank :=
  if op.unary then some .unaryMinus else (BinaryOp.ofSymbol? op.symbol).map BinaryOp.rank

/-- The rank of an operator; an unknown one binds least. -/
def rank (op : Operator) : Rank :=
  op.rank?.getD ⟨0, false⟩

/-- A binary operator. -/
def binary (op : BinaryOp) : Operator := ⟨op.symbol, false⟩

/-- The minus that begins an operand. -/
def unaryMinus : Operator := ⟨BinaryOp.sub.symbol, true⟩

@[simp] theorem rank_binary (op : BinaryOp) : (binary op).rank = op.rank := by
  simp [rank, rank?, binary]

@[simp] theorem rank_unaryMinus : unaryMinus.rank = .unaryMinus := rfl

end Operator

/-- A lexical unit. -/
inductive Token where
  | number (text : String) (value : Option Float)
  | operator (op : Operator)
  | leftParen
  | rightParen
  | identifier (name : String)
  deriving DecidableEq

namespace Token

/-- The kinds of tokens. -/
inductive Kind where
  | number
  | operator
  | leftParen
  | rightParen
  | identifier
  deriving DecidableEq, Repr

/-- The kind of a token. -/
def kind : Token → Kind
  | number _ _ => .number
  | operator _ => .operator
  | leftParen => .leftParen
  | rightParen => .rightParen
  | identifier _ => .identifier

/-- The lower-case name of a kind. -/
def Kind.name : Kind → String
  | number => "number"
  | operator => "operator"
  | leftParen => "left_paren"
  | rightParen => "right_paren"
  | identifier => "identifier"

/-- The name of a kind in capitals, as messages show it. -/
def Kind.capitals : Kind → String
  | number => "NUMBER"
  | operator => "OPERATOR"
  | leftParen => "LEFT_PAREN"
  | rightParen => "RIGHT_PAREN"
  | identifier => "IDENTIFIER"

/-- The kind with the given lower-case name. -/
def Kind.ofName? (name : String) : Option Kind :=
  [number, operator, leftParen, rightParen, identifier].find? (·.name = name)

/-- The text of a token. -/
def text : Token → String
  | number text _ => text
  | operator op => op.symbol
  | leftParen => "("
  | rightParen => ")"
  | identifier name => name

/-- The value of a number. -/
def value? : Token → Option Float
  | number _ value => value
  | _ => none

/-- Whether a token is a unary operator. -/
def isUnary : Token → Bool
  | operator op => op.unary
  | _ => false

/-- The number token with the given text. -/
def ofLiteral (text : String) : Token :=
  number text (Numeral.read? text)

/-- Whether a minus right after this token begins an operand. -/
def opensOperand : Token → Bool
  | operator _ | leftParen => true
  | _ => false

/-- Two tokens are equal when kind, text, value and the unary mark agree; values are compared as
numbers, so a NaN differs from itself. -/
def same (s t : Token) : Bool :=
  let sameValue := match s.value?, t.value? with
    | some x, some y => x == y
    | none, none => true
    | _, _ => false
  s.kind == t.kind && s.text == t.text && sameValue && s.isUnary == t.isUnary

/-- How messages show a token. -/
def shown (t : Token) : String :=
  let mark := if t.isUnary then ", unary" else ""
  s!"Token({t.kind.capitals}, {Text.quoted t.text}{mark})"

end Token

end DeskCalculator
