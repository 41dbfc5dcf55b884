import DeskCalculator.Proofs.Lexeme
import DeskCalculator.Program.Basic

/-!
# The infix grammar

An `Infix n` is a derivation tree of the grammar below from the nonterminal `n`.

    sum     := sum + product | sum - product | product
    product := product * power | product / power | power
    power   := signed ^ power | signed
    signed  := - signed | primary
    primary := number | ( sum ) | name ( sum )

`Infix.yield` is what the tree writes and `Infix.postorder` the program that it stands for. Redundant
parentheses are part of the tree and leave no trace in the program.
-/

namespace DeskCalculator

/-- The nonterminals of the grammar. -/
inductive Nonterminal where
  | sum
  | product
  | power
  | signed
  | primary
  deriving DecidableEq

/-- The derivation trees from a nonterminal. -/
inductive Infix : Nonterminal → Type where
  | add (l : Infix .sum) (r : Infix .product) : Infix .sum
  | sub (l : Infix .sum) (r : Infix .product) : Infix .sum
  | ofProduct (e : Infix .product) : Infix .sum
  | mul (l : Infix .product) (r : Infix .power) : Infix .product
  | div (l : Infix .product) (r : Infix .power) : Infix .product
  | ofPower (e : Infix .power) : Infix .product
  | pow (base : Infix .signed) (exponent : Infix .power) : Infix .power
  | ofSigned (e : Infix .signed) : Infix .power
  | neg (e : Infix .signed) : Infix .signed
  | ofPrimary (e : Infix .primary) : Infix .signed
  | number (literal : Literal) : Infix .primary
  | group (e : Infix .sum) : Infix .primary
  | call (name : Word) (e : Infix .sum) : Infix .primary

namespace Infix

/-- The lexemes that a tree derives. -/
def yield {n : Nonterminal} : Infix n → List Lexeme
  | add l r => l.yield ++ .sign .add :: r.yield
  | sub l r => l.yield ++ .sign .sub :: r.yield
  | mul l r => l.yield ++ .sign .mul :: r.yield
  | div l r => l.yield ++ .sign .div :: r.yield
  | pow base exponent => base.yield ++ .sign .pow :: exponent.yield
  | neg e => .sign .sub :: e.yield
  | ofProduct e | ofPower e | ofSigned e | ofPrimary e => e.yield
  | number literal => [.number literal]
  | group e => .opening :: e.yield ++ [.closing]
  | call name e => .name name :: .opening :: e.yield ++ [.closing]

/-- The program of a tree: operands first, a negated operand as a difference from zero. -/
def postorder {n : Nonterminal} : Infix n → Program
  | add l r => l.postorder ++ r.postorder ++ [.binary "+"]
  | sub l r => l.postorder ++ r.postorder ++ [.binary "-"]
  | mul l r => l.postorder ++ r.postorder ++ [.binary "*"]
  | div l r => l.postorder ++ r.postorder ++ [.binary "/"]
  | pow base exponent => base.postorder ++ exponent.postorder ++ [.binary "^"]
  | neg e => [.push "0" (some 0)] ++ e.postorder ++ [.binary "-"]
  | ofProduct e | ofPower e | ofSigned e | ofPrimary e => e.postorder
  | number literal => [.push literal.text literal.value?]
  | group e => e.postorder
  | call name e => e.postorder ++ [.call name.text]

/-! ## The tokens of a tree -/

/-- The tokens of a tree: every minus at the front of an operand is the unary one, behind its zero. -/
def tokens {n : Nonterminal} : Infix n → List Token
  | add l r => l.tokens ++ .operator (.binary .add) :: r.tokens
  | sub l r => l.tokens ++ .operator (.binary .sub) :: r.tokens
  | mul l r => l.tokens ++ .operator (.binary .mul) :: r.tokens
  | div l r => l.tokens ++ .operator (.binary .div) :: r.tokens
  | pow base exponent => base.tokens ++ .operator (.binary .pow) :: exponent.tokens
  | neg e => .number "0" (some 0) :: .operator .unaryMinus :: e.tokens
  | ofProduct e | ofPower e | ofSigned e | ofPrimary e => e.tokens
  | number literal => [.number literal.text literal.value?]
  | group e => .leftParen :: e.tokens ++ [.rightParen]
  | call name e => .identifier name.text :: .leftParen :: e.tokens ++ [.rightParen]

/-- In front of an operand a minus is unary, with a zero before it. -/
theorem ofMinus_true :
    Token.ofMinus true = [.number "0" (some 0), .operator .unaryMinus] := by
  have hzero : Numeral.read? "0" = some 0 := by decide +kernel
  simp [Token.ofMinus, Token.ofLiteral, hzero]

/-- A tree stands where an operand is expected and leaves none expected behind it. -/
theorem tokenList_yield_append {n : Nonterminal} (t : Infix n) (ls : List Lexeme) :
    Lexeme.tokenList true (t.yield ++ ls) = t.tokens ++ Lexeme.tokenList false ls := by
  induction t generalizing ls with
  | add l r ihl ihr | sub l r ihl ihr | mul l r ihl ihr | div l r ihl ihr | pow l r ihl ihr =>
    simp only [yield, tokens, List.append_assoc, List.cons_append, ihl, Lexeme.tokenList,
      Lexeme.tokens, Lexeme.opensOperand, ihr]
    rfl
  | neg e ih =>
    -- an operand is expected here, so this minus brings its zero
    simp only [yield, tokens, List.cons_append, Lexeme.tokenList, Lexeme.tokens,
      Lexeme.opensOperand, ofMinus_true, ih, List.nil_append]
  | ofProduct e ih | ofPower e ih | ofSigned e ih | ofPrimary e ih => exact ih ls
  | number literal => rfl
  | group e ih =>
    simp only [yield, tokens, List.append_assoc, List.cons_append, Lexeme.tokenList,
      Lexeme.tokens, Lexeme.opensOperand, ih, List.nil_append]
  | call name e ih =>
    simp only [yield, tokens, List.append_assoc, List.cons_append, Lexeme.tokenList,
      Lexeme.tokens, Lexeme.opensOperand, ih, List.nil_append]

/-- A text with the lexemes of a tree has the tokens of the tree. -/
theorem tokenize_of_lexemes_eq {n : Nonterminal} {t : Infix n} {s : String}
    (h : lexemes s = t.yield) : Token.tokenize s = t.tokens := by
  rw [tokenize_eq, h]
  simpa [Lexeme.tokenList] using t.tokenList_yield_append []

end Infix

end DeskCalculator
