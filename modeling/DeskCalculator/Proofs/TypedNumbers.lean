import DeskCalculator.Proofs.PercentTokens
import DeskCalculator.Proofs.WrittenValue
import DeskCalculator.Session.Basic

/-!
# Numbers that a session types

Three keys type a number at the end of the line: the memory, a random number, and the constants. Where an
operand is expected, the number is read back as it was: written in full it is one literal that is worth the
double itself, and the minus of a negative one brings its zero and the unary operator.

What holds of numbers here holds of every operand of the grammar, up to a sign in front
(`addsOperand_of_yield`). Behind an operator or an opening parenthesis nothing that waits is released by a
unary minus, so the program of the operand is written in one piece where the program of the line stopped.
-/

namespace DeskCalculator

open Binary64 Program

/-! ## Lines that expect an operand -/

/-- The line is empty or ends in the sign of an operator or in an opening parenthesis. -/
def ExpectsOperand (line : String) : Prop :=
  ∀ c ∈ line.toList.getLast?, c ∈ ['+', '-', '*', '/', '^', '×', '÷', '(']

/-- No operator goes before the unary minus. -/
theorem Operator.goesBefore_unaryMinus (op : Operator) : op.rank.goesBefore .unaryMinus = false := by
  have hle : op.rank.precedence ≤ 5 := by
    rw [rank, rank?]
    split
    · decide
    · cases BinaryOp.ofSymbol? op.symbol with
      | none => decide
      | some b => cases b <;> decide
  simp [Rank.goesBefore, Rank.unaryMinus, hle.not_gt]

namespace Lexeme

/-- A sign or an opening parenthesis belongs to no number and to no word, and an operand is expected
behind it. -/
theorem exists_ofChar?_eq_some {c : Char} (h : c ∈ ['+', '-', '*', '/', '^', '×', '÷', '(']) :
    c.isAlpha = false ∧ Token.isNumeric c = false ∧ ∃ l, ofChar? c = some l ∧ l.opensOperand = true := by
  simp only [List.mem_cons, List.not_mem_nil, or_false] at h
  rcases h with rfl | rfl | rfl | rfl | rfl | rfl | rfl | rfl <;>
    exact ⟨by decide, by decide, _, rfl, rfl⟩

/-- Behind the last token of such a lexeme an operand is expected, too. -/
theorem exists_tokens_eq_concat {l : Lexeme} (h : l.opensOperand = true) (operandNext : Bool) :
    ∃ ts t, l.tokens operandNext = ts ++ [t] ∧ t.opensOperand = true := by
  cases l with
  | number | name | closing => cases h
  | opening => exact ⟨[], _, rfl, rfl⟩
  | sign op =>
    cases op with
    | sub =>
      cases operandNext with
      | false => exact ⟨[], _, rfl, rfl⟩
      | true => exact ⟨[_], _, rfl, rfl⟩
    | _ => exact ⟨[], _, rfl, rfl⟩

end Lexeme

namespace ExpectsOperand

variable {line : String}

/-- Nothing typed goes on in a run of a line that expects an operand. -/
theorem separate (h : ExpectsOperand line) (ys : List Char) : Lexeme.Separate line.toList ys := by
  intro a ha b _
  obtain ⟨halpha, hnumeric, -⟩ := Lexeme.exists_ofChar?_eq_some (h a ha)
  simp [halpha, hnumeric]

/-- The lexemes of a line that expects an operand are none or end in one that opens an operand. -/
theorem lexemes_eq (h : ExpectsOperand line) :
    lexemes line = [] ∨ ∃ ls l, lexemes line = ls ++ [l] ∧ l.opensOperand = true := by
  rcases List.eq_nil_or_concat line.toList with hline | ⟨init, c, hline⟩
  · exact .inl (by rw [lexemes, hline, Lexeme.read_nil])
  rw [List.concat_eq_append] at hline
  obtain ⟨halpha, hnumeric, l, hl, hopens⟩ := Lexeme.exists_ofChar?_eq_some (h c (by simp [hline]))
  refine .inr ⟨Lexeme.read init, l, ?_, hopens⟩
  rw [lexemes, hline, Lexeme.read_append_cons halpha hnumeric, hl, Lexeme.read_nil]
  rfl

/-- What is typed behind the line is read as it is by itself. -/
theorem tokenize_append (h : ExpectsOperand line) (text : String) :
    Token.tokenize (line ++ text) = Token.tokenize line ++ Token.tokenize text := by
  have hafter : Lexeme.operandAfter true (lexemes line) = true := by
    rcases h.lexemes_eq with hnil | ⟨ls, l, hconcat, hopens⟩
    · rw [hnil]
      rfl
    · simp [hconcat, Lexeme.operandAfter, hopens]
  rw [tokenize_eq, tokenize_eq, tokenize_eq, lexemes, String.toList_append,
    Lexeme.read_append (h.separate _), Lexeme.tokenList_append]
  exact congrArg (_ ++ Lexeme.tokenList · _) hafter

/-- What waits behind the line is not released by a unary minus. -/
theorem guards (h : ExpectsOperand line) : Guards (waitingAfter [] (Token.tokenize line)) .signed := by
  rcases h.lexemes_eq with hnil | ⟨ls, l, hconcat, hopens⟩
  · rw [tokenize_eq, hnil]
    simp [Lexeme.tokenList, waitingAfter, Guards]
  obtain ⟨ts, t, htokens, ht⟩ := Lexeme.exists_tokens_eq_concat hopens (Lexeme.operandAfter true ls)
  rw [tokenize_eq, hconcat, Lexeme.tokenList_append, Lexeme.tokenList, Lexeme.tokenList,
    List.append_nil, htokens, ← List.append_assoc, waitingAfter_append]
  cases t with
  | number | identifier | rightParen => cases ht
  | leftParen => exact guards_paren _ _
  | operator op =>
    refine guards_operator _ fun next hnext => ?_
    obtain rfl : next = .unaryMinus := by simpa [Nonterminal.operators] using hnext
    exact op.goesBefore_unaryMinus

end ExpectsOperand

/-! ## Operands behind a line -/

/-- Typed behind the line, the text adds the tokens, and an operand that is worth `x`: it is computed where
the program of the line stopped, before what waits there. -/
structure AddsOperand (line text : String) (added : List Token) (x : Float) : Prop where
  tokens : Token.tokenize (line ++ text) = Token.tokenize line ++ added
  program : ∃ operand, compile (line ++ text) =
      written [] (Token.tokenize line) ++ operand ++ flush (waitingAfter [] (Token.tokenize line)) ∧
    ∀ mode, Computes .ieee mode operand (.ok x)
  alone : ∀ mode, Expression.evaluate .ieee mode text = .ok x

/-- An operand of the grammar is added as its tokens, with its value. -/
theorem addsOperand_of_yield {line text : String} {x : Float} {t : Infix .signed}
    (hline : ExpectsOperand line) (htext : lexemes text = t.yield)
    (hvalue : ∀ mode, t.value .ieee mode = .ok x) : AddsOperand line text t.tokens x := by
  have htokens : Token.tokenize (line ++ text) = Token.tokenize line ++ t.tokens := by
    rw [hline.tokenize_append, Infix.tokenize_of_lexemes_eq htext]
  refine ⟨htokens, ⟨t.postorder, ?_, fun mode => ?_⟩, fun mode => ?_⟩
  · obtain ⟨block, -, hwaiting, hwritten⟩ := t.arranged hline.guards
    rw [compile, htokens, ofTokens, arrange_append, arrange_eq_written, hwaiting, flush_append,
      ← List.append_assoc (written _ t.tokens), hwritten, List.append_assoc]
  · rw [← hvalue mode]
    exact t.computes_postorder
  · rw [← hvalue mode]
    exact Expression.evaluate_of_lexemes_eq (t := .ofProduct (.ofPower (.ofSigned t))) htext

/-! ## Numbers behind a line -/

/-- The text of a negative number is a minus and the text of its size. -/
theorem Layout.text_of_negative (layout : Layout) {x : Float} {m : Nat} {q : Int}
    (hx : ofFloat x = finite true m q) : layout.text x = "-" ++ layout.text x.abs := by
  simp only [Layout.text, hx, ofFloat_abs hx, Layout.sign, if_true, Bool.false_eq_true, if_false]
  rw [String.ofList_append]
  rfl

section

variable {line : String} {x : Float} {m : Nat} {q : Int}

/-- A number without a sign is added as its literal. -/
theorem addsOperand_text (hline : ExpectsOperand line) (hx : ofFloat x = finite false m q) :
    AddsOperand line (Layout.plain.text x) [.number (Layout.plain.text x) (some x)] x := by
  obtain ⟨l, hread, htext, hvalue⟩ := Percent.exists_read_text hx
  have hadds := addsOperand_of_yield (t := .ofPrimary (.number l)) hline hread fun mode => by
    rw [Infix.value, Infix.value, Infix.literalValue, hvalue]
  rwa [Infix.tokens, Infix.tokens, htext, hvalue] at hadds

/-- A number with a minus is added as the difference of zero and its size. -/
theorem addsOperand_text_of_negative (hline : ExpectsOperand line) (hx : ofFloat x = finite true m q) :
    AddsOperand line (Layout.plain.text x)
      [.number "0" (some 0), .operator .unaryMinus, .number (Layout.plain.text x.abs) (some x.abs)]
      (0 - x.abs) := by
  obtain ⟨l, hread, htext, hvalue⟩ := Percent.exists_read_text (ofFloat_abs hx)
  have hlexemes : lexemes (Layout.plain.text x) = [.sign .sub, .number l] := by
    rw [lexemes, Layout.text_of_negative _ hx, String.toList_append]
    change Lexeme.read ('-' :: (Layout.plain.text x.abs).toList) = _
    rw [Lexeme.read_of_other (by decide) (beginsNumber_eq_false (by decide) _), hread]
    rfl
  have hadds := addsOperand_of_yield (t := .neg (.ofPrimary (.number l))) hline hlexemes fun mode => by
    rw [Infix.value, Infix.value, Infix.value, Infix.literalValue, hvalue]
    rfl
  rwa [Infix.tokens, Infix.tokens, Infix.tokens, htext, hvalue] at hadds

end

/-! ## The keys that type a number -/

namespace Session

/-- The numbers that the keys of a session type. -/
inductive Types (session : Session) : Action → Float → Prop
  | memory : Types session .memoryRecall session.memory
  | rand : Types session (.constant "rand") (session.draws.headD 0)
  | pi : Types session (.constant "pi") pi
  | e : Types session (.constant "e") euler

/-- The constants are written alike in a report and in a line. -/
theorem report_text_constants :
    Layout.report.text pi = Layout.plain.text pi ∧ Layout.report.text euler = Layout.plain.text euler := by
  decide +kernel

/-- The text of the number, written in full, is put behind the line. -/
theorem Types.act_eq {session : Session} {action : Action} {x : Float} (h : session.Types action x)
    (s : Settings) (e : Evaluator) :
    ∃ after, session.act s e action = (.ok (.line (session.line ++ Layout.plain.text x)), after, e) ∧
      after.line = session.line ++ Layout.plain.text x := by
  cases h with
  | memory => exact ⟨_, rfl, rfl⟩
  | rand => exact ⟨_, rfl, rfl⟩
  | pi =>
    rw [← report_text_constants.1]
    exact ⟨_, rfl, rfl⟩
  | e =>
    rw [← report_text_constants.2]
    exact ⟨_, rfl, rfl⟩

/-- Where an operand is expected, every finite number that a key types is read back as itself. Without a sign
it is one literal with its value. A negative one is its size behind a zero and the unary minus, and is worth
the number again; the negative zero alone is worth the zero without a sign. -/
theorem types_addsOperand {session : Session} {action : Action} {x : Float}
    (htypes : session.Types action x) (hfinite : x.isFinite = true)
    (hline : ExpectsOperand session.line) (s : Settings) (e : Evaluator) :
    ∃ text after, session.act s e action = (.ok (.line (session.line ++ text)), after, e) ∧
      after.line = session.line ++ text ∧
      ((0 < x ∨ x = 0) ∧ AddsOperand session.line text [.number text (some x)] x ∨
        x < 0 ∧ AddsOperand session.line text
          [.number "0" (some 0), .operator .unaryMinus,
            .number (Layout.plain.text x.abs) (some x.abs)] x ∨
        x = -0.0 ∧ AddsOperand session.line text
          [.number "0" (some 0), .operator .unaryMinus,
            .number (Layout.plain.text x.abs) (some x.abs)] 0) := by
  obtain ⟨after, hact, hafter⟩ := htypes.act_eq s e
  refine ⟨_, after, hact, hafter, ?_⟩
  obtain ⟨negative, m, q, hx⟩ := (isFinite_iff x).1 hfinite
  cases negative with
  | false => exact .inl ⟨pos_or_eq_zero hx, addsOperand_text hline hx⟩
  | true =>
    have hadds := addsOperand_text_of_negative hline hx
    rcases Nat.eq_zero_or_pos m with rfl | hm
    · obtain rfl := eq_neg_zero hx
      have hzero : (0 : Float) - Float.abs (-0.0) = 0 := by decide +kernel
      rw [hzero] at hadds
      exact .inr (.inr ⟨rfl, hadds⟩)
    · have hsub : 0 - x.abs = x :=
        eq_of_ofFloat_eq_finite (ofFloat_zero_sub (ofFloat_abs hx) hm.ne') hx
      rw [hsub] at hadds
      exact .inr (.inl ⟨(lt_zero_iff hx).2 ⟨rfl, hm.ne'⟩, hadds⟩)

/-- A session in front of an exponent, with a negative number in the memory and the least positive double
drawn next. -/
def beforeExponent : Session where
  line := "2^"
  memory := -0.1
  mode := .degrees
  history := .empty 60
  draws := [5e-324]

/-- A negative memory behind a power sign, the least positive double drawn there, and a negative zero at the
start of a line. -/
theorem types_addsOperand_beforeExponent :
    (∃ text after, beforeExponent.act .standard ⟨.degrees, .empty 256⟩ .memoryRecall =
        (.ok (.line ("2^" ++ text)), after, ⟨.degrees, .empty 256⟩) ∧ after.line = "2^" ++ text ∧
      AddsOperand "2^" text [.number "0" (some 0), .operator .unaryMinus, .number "0.1" (some 0.1)] (-0.1)) ∧
    (∃ text after, beforeExponent.act .standard ⟨.degrees, .empty 256⟩ (.constant "rand") =
        (.ok (.line ("2^" ++ text)), after, ⟨.degrees, .empty 256⟩) ∧ after.line = "2^" ++ text ∧
      AddsOperand "2^" text [.number text (some 5e-324)] 5e-324) ∧
    ∃ text after, ({ beforeExponent with line := "", memory := -0.0 } : Session).act .standard
          ⟨.degrees, .empty 256⟩ .memoryRecall =
        (.ok (.line ("" ++ text)), after, ⟨.degrees, .empty 256⟩) ∧ after.line = "" ++ text ∧
      AddsOperand "" text [.number "0" (some 0), .operator .unaryMinus, .number "0" (some 0)] 0 := by
  have hpower : ExpectsOperand "2^" := by
    intro c hc
    obtain rfl : '^' = c := by simpa using hc
    decide
  have hempty : ExpectsOperand "" := by
    intro c hc
    simp at hc
  refine ⟨?_, ?_, ?_⟩
  · have htypes : beforeExponent.Types .memoryRecall (-0.1) := .memory
    obtain ⟨text, after, hact, hafter, hadds⟩ :=
      types_addsOperand htypes (by decide +kernel) hpower .standard ⟨.degrees, .empty 256⟩
    have hsize : Layout.plain.text (Float.abs (-0.1)) = "0.1" ∧ Float.abs (-0.1) = 0.1 := by decide +kernel
    rw [hsize.1, hsize.2] at hadds
    rcases hadds with ⟨hsign, -⟩ | ⟨-, hadds⟩ | ⟨hsign, -⟩
    · exact absurd hsign (by decide +kernel)
    · exact ⟨text, after, hact, hafter, hadds⟩
    · exact absurd hsign (by decide +kernel)
  · have htypes : beforeExponent.Types (.constant "rand") 5e-324 := .rand
    obtain ⟨text, after, hact, hafter, hadds⟩ :=
      types_addsOperand htypes (by decide +kernel) hpower .standard ⟨.degrees, .empty 256⟩
    rcases hadds with ⟨-, hadds⟩ | ⟨hsign, -⟩ | ⟨hsign, -⟩
    · exact ⟨text, after, hact, hafter, hadds⟩
    · exact absurd hsign (by decide +kernel)
    · exact absurd hsign (by decide +kernel)
  · have htypes : ({ beforeExponent with line := "", memory := -0.0 } : Session).Types .memoryRecall (-0.0) :=
      .memory
    obtain ⟨text, after, hact, hafter, hadds⟩ :=
      types_addsOperand htypes (by decide +kernel) hempty .standard ⟨.degrees, .empty 256⟩
    have hsize : Layout.plain.text (Float.abs (-0.0)) = "0" ∧ Float.abs (-0.0) = 0 := by decide +kernel
    rw [hsize.1, hsize.2] at hadds
    rcases hadds with ⟨hsign, -⟩ | ⟨hsign, -⟩ | ⟨-, hadds⟩
    · exact absurd hsign (by decide +kernel)
    · exact absurd hsign (by decide +kernel)
    · exact ⟨text, after, hact, hafter, hadds⟩

end Session

end DeskCalculator
