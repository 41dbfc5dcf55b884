import DeskCalculator.Token.Lexer

/-!
# Postfix programs

A program is a list of instructions for a machine with a stack of values. `Program.ofTokens` arranges the
tokens of an infix expression as such a program. It refuses nothing: what is wrong with an expression
shows when its program is run.

Operators, names and opening parentheses wait on a list, the last one first, until what they apply to has
been written. An operator lets those before it go first that bind tighter, or equally tightly if it
groups to the left. A closing parenthesis releases all that waits behind the matching opening one, and
then the name in front of that. Opening parentheses and names hold back what waits behind them.

`step` is what one token does, `arrange` runs it over a list, so that
`arrange waiting (xs ++ ys) = written waiting xs ++ arrange (waitingAfter waiting xs) ys`.
-/

namespace DeskCalculator

/-- An instruction of the stack machine. -/
inductive Instruction where
  /-- Push a number; without a value the literal was malformed. -/
  | push (text : String) (value : Option Float)
  /-- Replace two values by the result of an operator. -/
  | binary (symbol : String)
  /-- Replace a value by its image under a function. -/
  | call (name : String)
  /-- The mark of a parenthesis that was never closed. -/
  | unclosed
  /-- A token where an instruction belongs. -/
  | foreign (kind : Token.Kind) (symbol : String)
  deriving DecidableEq

namespace Instruction

/-- The symbol by which an unclosed parenthesis is known among function names. -/
def unclosedSymbol : String := "("

/-- The instruction that calls a name; an opening parenthesis is no name. -/
def ofName (name : String) : Instruction :=
  if name = unclosedSymbol then unclosed else call name

/-- The symbol of an instruction. -/
def symbol : Instruction → String
  | push text _ => text
  | binary symbol => symbol
  | call name => name
  | unclosed => unclosedSymbol
  | foreign _ symbol => symbol

/-- The value of an instruction. -/
def value? : Instruction → Option Float
  | push _ value => value
  | _ => none

/-- A push without a value. -/
def isMalformed : Instruction → Bool
  | push _ none => true
  | _ => false

/-- The name of the type of an instruction, in lower case. -/
def typeName : Instruction → String
  | push _ _ => "push_number"
  | binary _ => "apply_binary_op"
  | call _ | unclosed => "apply_function"
  | foreign kind _ => kind.name

/-- The name of the type of an instruction, in capitals. -/
def typeCapitals : Instruction → String
  | push _ _ => "PUSH_NUMBER"
  | binary _ => "APPLY_BINARY_OP"
  | call _ | unclosed => "APPLY_FUNCTION"
  | foreign kind _ => kind.capitals

/-- How messages show an instruction. -/
def shown (i : Instruction) : String :=
  s!"Instruction({i.typeCapitals}, {Text.quoted i.symbol})"

/-- Two instructions are equal when type, symbol and value agree; values are compared as numbers, so a
NaN differs from itself. -/
def same (i j : Instruction) : Bool :=
  let sameValue := match i.value?, j.value? with
    | some x, some y => x == y
    | none, none => true
    | _, _ => false
  i.typeName == j.typeName && i.symbol == j.symbol && sameValue

end Instruction

/-- What a token list is arranged into. -/
abbrev Program := List Instruction

/-- What waits for its operands. -/
inductive Pending where
  | operator (op : Operator)
  | name (name : String)
  | paren
  deriving DecidableEq, Repr

namespace Pending

/-- The instruction that something waiting becomes. -/
def instruction : Pending → Instruction
  | operator op => .binary op.symbol
  | name n => .ofName n
  | paren => .unclosed

/-- Whether something waiting is applied before the operator that comes next. -/
def goesBefore (next : Operator) : Pending → Bool
  | operator op => op.rank.goesBefore next.rank
  | _ => false

/-- Whether something waiting is not an opening parenthesis. -/
def isInside : Pending → Bool
  | paren => false
  | _ => true

end Pending

namespace Program

/-! ## Arranging tokens -/

/-- What still waits is written in the order last come, first served. -/
def flush (waiting : List Pending) : Program :=
  waiting.map Pending.instruction

/-- What remains after a closing parenthesis has released a group: the parenthesis goes, and the name in
front of it is called. -/
def close : List Pending → Program × List Pending
  | .paren :: .name n :: waiting => ([.ofName n], waiting)
  | .paren :: waiting => ([], waiting)
  | waiting => ([], waiting)

/-- What one token writes, and what waits after it. -/
def step (waiting : List Pending) : Token → Program × List Pending
  | .number text value => ([.push text value], waiting)
  | .operator op =>
    (flush (waiting.takeWhile (Pending.goesBefore op)),
      .operator op :: waiting.dropWhile (Pending.goesBefore op))
  | .identifier n => ([], .name n :: waiting)
  | .leftParen => ([], .paren :: waiting)
  | .rightParen =>
    let (called, rest) := close (waiting.dropWhile Pending.isInside)
    (flush (waiting.takeWhile Pending.isInside) ++ called, rest)

/-- The program of a token list, if something waits already. -/
def arrange (waiting : List Pending) : List Token → Program
  | [] => flush waiting
  | t :: tokens => (step waiting t).1 ++ arrange (step waiting t).2 tokens

/-- What a token list writes before its end. -/
def written (waiting : List Pending) : List Token → Program
  | [] => []
  | t :: tokens => (step waiting t).1 ++ written (step waiting t).2 tokens

/-- What waits after a token list. -/
def waitingAfter (waiting : List Pending) : List Token → List Pending
  | [] => waiting
  | t :: tokens => waitingAfter (step waiting t).2 tokens

/-- The program of a token list. -/
def ofTokens (tokens : List Token) : Program :=
  arrange [] tokens

/-- The front of a list of tokens is written as it is by itself; the rest goes on from what waits there. -/
theorem arrange_append (waiting : List Pending) (xs ys : List Token) :
    arrange waiting (xs ++ ys) = written waiting xs ++ arrange (waitingAfter waiting xs) ys := by
  induction xs generalizing waiting with
  | nil => rfl
  | cons t xs ih => simp [arrange, written, waitingAfter, ih]

/-! ## Operators without a rank -/

/-- An operator symbol that has no rank, met where its rank was asked for. -/
structure UnknownSymbol where
  symbol : String
  deriving DecidableEq, Repr

/-- The wording of the refusal: the symbol, quoted. -/
def UnknownSymbol.message (u : UnknownSymbol) : String :=
  Text.quoted u.symbol

/-- The first symbol without a rank that is met when `next` looks for those that go before it. Nothing
is asked when no operator waits right behind. -/
def unranked? (next : Operator) : List Pending → Option UnknownSymbol
  | .operator op :: waiting =>
    match op.rank?, next.rank? with
    | none, _ => some ⟨op.symbol⟩
    | some _, none => some ⟨next.symbol⟩
    | some r, some s => if r.goesBefore s then unranked? next waiting else none
  | _ => none

/-- The first symbol without a rank that is met in arranging a token list. -/
def firstUnranked? (waiting : List Pending) : List Token → Option UnknownSymbol
  | [] => none
  | t :: tokens =>
    let here := match t with
      | .operator op => unranked? op waiting
      | _ => none
    match here with
    | some s => some s
    | none => firstUnranked? (step waiting t).2 tokens

/-- The program of any token list, unless an operator's rank is asked for and not known. -/
def ofTokens? (tokens : List Token) : Except UnknownSymbol Program :=
  match firstUnranked? [] tokens with
  | some s => .error s
  | none => .ok (ofTokens tokens)

/-- The program of an expression. -/
def compile (s : String) : Program :=
  ofTokens (Token.tokenize s)

end Program

end DeskCalculator
