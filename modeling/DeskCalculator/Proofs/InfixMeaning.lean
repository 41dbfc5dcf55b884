import DeskCalculator.Expression
import DeskCalculator.Proofs.Factorial
import DeskCalculator.Proofs.InfixPrograms
import DeskCalculator.Proofs.StackMachine

/-!
# The meaning of infix expressions

`Infix.value` evaluates a derivation tree by recursion, operands from left to right. The first node that
fails, in the order of the postorder, ends the evaluation: a literal with several points, a name that is
no function, a factorial of a number whose whole part is negative. Evaluating an expression that derives
from the grammar is evaluating its tree.
-/

namespace DeskCalculator

namespace Infix

/-- The value of a literal as an operand. -/
def literalValue (literal : Literal) : Outcome :=
  match literal.value? with
  | some x => .ok x
  | none => .error (.malformedNumber literal.text)

/-- The value of a tree, operands from left to right; a negated operand is taken from zero. -/
def value (a : Arithmetic) (mode : AngleMode) {n : Nonterminal} : Infix n → Outcome
  | add l r => .both a.add (l.value a mode) (r.value a mode)
  | sub l r => .both a.sub (l.value a mode) (r.value a mode)
  | mul l r => .both a.mul (l.value a mode) (r.value a mode)
  | div l r => .both a.div (l.value a mode) (r.value a mode)
  | pow base exponent => .both a.pow (base.value a mode) (exponent.value a mode)
  | neg e => .both a.sub (.ok 0) (e.value a mode)
  | ofProduct e | ofPower e | ofSigned e | ofPrimary e => e.value a mode
  | number literal => literalValue literal
  | group e => e.value a mode
  | call name e => .call a mode name.text (e.value a mode)

variable {a : Arithmetic} {mode : AngleMode}

/-- A literal computes its own value. -/
theorem computes_literal (literal : Literal) :
    Program.Computes a mode [.push literal.text literal.value?] (literalValue literal) := by
  rw [literalValue]
  cases literal.value? with
  | none => exact Program.computes_malformed literal.text
  | some x => exact Program.computes_push literal.text x

/-- The postorder of a tree computes the value of the tree. -/
theorem computes_postorder {n : Nonterminal} (t : Infix n) :
    Program.Computes a mode t.postorder (t.value a mode) := by
  induction t with
  | add l r ihl ihr => exact ihl.binary ihr .add
  | sub l r ihl ihr => exact ihl.binary ihr .sub
  | mul l r ihl ihr => exact ihl.binary ihr .mul
  | div l r ihl ihr => exact ihl.binary ihr .div
  | pow base exponent ihb ihe => exact ihb.binary ihe .pow
  | neg e ih => exact (Program.computes_push "0" 0).binary ih .sub
  | ofProduct e ih | ofPower e ih | ofSigned e ih | ofPrimary e ih => exact ih
  | number literal => exact computes_literal literal
  | group e ih => exact ih
  | call name e ih => exact ih.call name.text

theorem yield_ne_nil {n : Nonterminal} (t : Infix n) : t.yield ≠ [] := by
  induction t with
  | ofProduct e ih | ofPower e ih | ofSigned e ih | ofPrimary e ih => exact ih
  | _ => simp [yield]

/-- A text with a derivation is not blank. -/
theorem not_allBlank_of_lexemes_eq {n : Nonterminal} {t : Infix n} {s : String}
    (h : lexemes s = t.yield) : Text.allBlank s = false := by
  refine not_allBlank_of_lexemes_ne_nil ?_
  rw [h]
  exact t.yield_ne_nil

/-- The outcome of an expression that derives from the grammar is the value of its derivation, whatever
the operations on numbers are. The factorial of the calculator refuses exactly the arguments whose whole
part is negative. -/
theorem evaluate_eq_value (t : Infix .sum) (s : String) (h : lexemes s = t.yield) :
    (∀ (a : Arithmetic) (mode : AngleMode), Expression.evaluate a mode s = t.value a mode) ∧
      ∀ x : Float, Arithmetic.ieee.fact x = none ↔ (Binary64.ofFloat x).TruncatesBelowZero := by
  refine ⟨fun a mode => ?_, factorial?_eq_none_iff⟩
  rw [Expression.evaluate, not_allBlank_of_lexemes_eq h, if_neg Bool.false_ne_true,
    Program.compile, tokenize_of_lexemes_eq h, ofTokens_tokens]
  exact t.computes_postorder.run_eq

/-- The derivation of `fact(-3) + foo(1.2.3)`, in which three nodes fail. -/
def threeFaults : Infix .sum :=
  let three : Infix .signed := .ofPrimary (.number ⟨"3", by simp [Token.isNumeric], by simp⟩)
  let points : Infix .signed := .ofPrimary (.number ⟨"1.2.3", by simp [Token.isNumeric], by simp⟩)
  let factorial : Infix .primary :=
    .call ⟨"fact", by simp, by simp, by simp⟩ (.ofProduct (.ofPower (.ofSigned (.neg three))))
  let unknown : Infix .primary :=
    .call ⟨"foo", by simp, by simp, by simp⟩ (.ofProduct (.ofPower (.ofSigned points)))
  .add (.ofProduct (.ofPower (.ofSigned (.ofPrimary factorial))))
    (.ofPower (.ofSigned (.ofPrimary unknown)))

/-- Of three failures in one tree the first one in postorder is the outcome. -/
theorem evaluate_threeFaults :
    lexemes "fact(-3) + foo(1.2.3)" = threeFaults.yield ∧
      Expression.evaluate .ieee .degrees "fact(-3) + foo(1.2.3)" =
        .error (.negativeFactorial (-3)) := by
  have h : lexemes "fact(-3) + foo(1.2.3)" = threeFaults.yield := by decide +kernel
  refine ⟨h, ?_⟩
  rw [(evaluate_eq_value threeFaults _ h).1 .ieee .degrees]
  decide +kernel

end Infix

end DeskCalculator
