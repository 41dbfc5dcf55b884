import DeskCalculator.Proofs.Conservation
import DeskCalculator.Program.Run

/-!
# Texts meet no internal error

Three steps on the way from a text to its outcome could fail in a way that no user is told about: reading
a number, asking for the rank of an operator, and carrying out an instruction that the machine does not
know. None of them fails for what the lexer reads off a text: `read_of_mem_tokenize`,
`ofTokens?_tokenize` and `isInternal_of_run_compile_eq_error`.

The operators of a text are all known, because a lexeme is written by one of the five. The arrangement
only moves operators, so those that wait are known as well, and it turns them into instructions that are
known in turn.
-/

namespace DeskCalculator

/-- The operator has a rank for the arrangement and a meaning for the machine. -/
structure Operator.Known (op : Operator) : Prop where
  rank : op.rank?.isSome = true
  symbol : (BinaryOp.ofSymbol? op.symbol).isSome = true

/-- Every binary operator is known. -/
theorem Operator.Known.binary (op : BinaryOp) : (Operator.binary op).Known :=
  ⟨by simp [rank?, Operator.binary], by simp [Operator.binary]⟩

/-- The unary minus is known. -/
theorem Operator.Known.unaryMinus : Operator.unaryMinus.Known :=
  ⟨rfl, by decide⟩

/-! ## What the lexer hands on -/

/-- The zero in front of a unary minus. -/
def Literal.zero : Literal where
  text := "0"
  numeric := by simp [Token.isNumeric]
  digit := ⟨'0', by simp⟩

namespace Lexeme

/-- A token of a list of lexemes is one of a lexeme. -/
theorem exists_of_mem_tokenList {operandNext : Bool} {ls : List Lexeme} {t : Token}
    (h : t ∈ tokenList operandNext ls) : ∃ l ∈ ls, ∃ next, t ∈ l.tokens next := by
  induction ls generalizing operandNext with
  | nil => simp [tokenList] at h
  | cons l ls ih =>
    rw [tokenList, List.mem_append] at h
    rcases h with h | h
    · exact ⟨l, by simp, operandNext, h⟩
    · obtain ⟨m, hm, next, hmem⟩ := ih h
      exact ⟨m, by simp [hm], next, hmem⟩

/-- A lexeme gives literals with their values and known operators. -/
theorem tokens_cases {l : Lexeme} {operandNext : Bool} {t : Token} (h : t ∈ l.tokens operandNext) :
    (∃ k : Literal, t = .number k.text k.value?) ∨ (∃ op, t = .operator op ∧ op.Known) ∨
      t = .leftParen ∨ t = .rightParen ∨ ∃ name, t = .identifier name := by
  cases l with
  | number k => exact .inl ⟨k, List.mem_singleton.1 h⟩
  | name w => exact .inr (.inr (.inr (.inr ⟨w.text, List.mem_singleton.1 h⟩)))
  | opening => exact .inr (.inr (.inl (List.mem_singleton.1 h)))
  | closing => exact .inr (.inr (.inr (.inl (List.mem_singleton.1 h))))
  | sign op =>
    cases op with
    | sub =>
      cases operandNext with
      | false => exact .inr (.inl ⟨_, List.mem_singleton.1 h, .binary _⟩)
      | true =>
        -- a minus that begins an operand is written as two tokens
        rcases List.mem_cons.1 h with rfl | h
        · exact .inl ⟨.zero, Literal.zero.ofLiteral_text⟩
        · exact .inr (.inl ⟨_, List.mem_singleton.1 h, .unaryMinus⟩)
    | _ => exact .inr (.inl ⟨_, List.mem_singleton.1 h, .binary _⟩)

end Lexeme

namespace Token

/-- A token of a text is one of a lexeme. -/
theorem exists_of_mem_tokenize {text : String} {t : Token} (h : t ∈ tokenize text) :
    ∃ (l : Lexeme) (operandNext : Bool), t ∈ l.tokens operandNext := by
  rw [tokenize_eq] at h
  obtain ⟨l, -, operandNext, hmem⟩ := Lexeme.exists_of_mem_tokenList h
  exact ⟨l, operandNext, hmem⟩

/-- The reader of numbers takes every number of a text and gives it the value of its token. -/
theorem read_of_mem_tokenize {text digits : String} {value : Option Float}
    (h : .number digits value ∈ tokenize text) : Numeral.read digits = .ok value := by
  obtain ⟨l, operandNext, hmem⟩ := exists_of_mem_tokenize h
  rcases Lexeme.tokens_cases hmem with ⟨k, hk⟩ | ⟨op, hop, -⟩ | hparen | hparen | ⟨name, hname⟩
  · obtain ⟨rfl, rfl⟩ := Token.number.inj hk
    exact k.read_text
  all_goals simp_all

/-- Every operator among the tokens of a text is known. -/
theorem known_of_mem_tokenize {text : String} {op : Operator} (h : .operator op ∈ tokenize text) :
    op.Known := by
  obtain ⟨l, operandNext, hmem⟩ := exists_of_mem_tokenize h
  rcases Lexeme.tokens_cases hmem with ⟨k, hk⟩ | ⟨known, hop, hknown⟩ | hparen | hparen | ⟨name, hname⟩
  case inr.inl =>
    obtain rfl := Token.operator.inj hop
    exact hknown
  all_goals simp_all

end Token

namespace Program

/-! ## Ranks -/

/-- What comes next finds a rank for itself and for each operator that waits. -/
theorem unranked?_eq_none {next : Operator} (hnext : next.rank?.isSome = true) {waiting : List Pending}
    (hwaiting : ∀ op, .operator op ∈ waiting → op.rank?.isSome = true) :
    unranked? next waiting = none := by
  induction waiting with
  | nil => rfl
  | cons w waiting ih =>
    cases w with
    | operator op =>
      obtain ⟨r, hr⟩ := Option.isSome_iff_exists.1 (hwaiting op (by simp))
      obtain ⟨s, hs⟩ := Option.isSome_iff_exists.1 hnext
      simp only [unranked?, hr, hs]
      split
      · exact ih fun op hop => hwaiting op (by simp [hop])
      · rfl
    | name | paren => rfl

/-- Closing a parenthesis leaves only what waited. -/
theorem close_subset (waiting : List Pending) : (close waiting).2 ⊆ waiting := by
  intro w hw
  unfold close at hw
  split at hw
  · exact List.mem_cons_of_mem _ (List.mem_cons_of_mem _ hw)
  · exact List.mem_cons_of_mem _ hw
  · exact hw

/-- An operator that waits after a token has waited before, or is the token. -/
theorem operator_mem_step {waiting : List Pending} {t : Token} {op : Operator}
    (h : .operator op ∈ (step waiting t).2) : .operator op ∈ waiting ∨ t = .operator op := by
  cases t with
  | number text value => exact .inl h
  | operator next =>
    rcases List.mem_cons.1 h with hop | h
    · exact .inr (by rw [Pending.operator.inj hop])
    · exact .inl ((List.dropWhile_suffix _).subset h)
  | leftParen => exact .inl (by simpa [step] using h)
  | rightParen => exact .inl ((List.dropWhile_suffix _).subset (close_subset _ h))
  | identifier name => exact .inl (by simpa [step] using h)

/-- With known operators alone, none is left without a rank. -/
theorem firstUnranked?_eq_none {waiting : List Pending} {tokens : List Token}
    (hwaiting : ∀ op, .operator op ∈ waiting → op.rank?.isSome = true)
    (htokens : ∀ op, .operator op ∈ tokens → op.rank?.isSome = true) :
    firstUnranked? waiting tokens = none := by
  induction tokens generalizing waiting with
  | nil => rfl
  | cons t tokens ih =>
    have hrest : firstUnranked? (step waiting t).2 tokens = none := by
      refine ih ?_ fun op hop => htokens op (by simp [hop])
      intro op hop
      rcases operator_mem_step hop with hold | rfl
      · exact hwaiting op hold
      · exact htokens op (by simp)
    cases t with
    | operator op =>
      have hhere := unranked?_eq_none (htokens op (by simp)) hwaiting
      simp only [firstUnranked?, hhere, hrest]
    | number | leftParen | rightParen | identifier => exact hrest

/-- Every text is arranged without asking for a rank that is not known. -/
theorem ofTokens?_tokenize (text : String) : ofTokens? (Token.tokenize text) = .ok (compile text) := by
  have hnone : firstUnranked? [] (Token.tokenize text) = none :=
    firstUnranked?_eq_none (by simp) fun op hop => (Token.known_of_mem_tokenize hop).rank
  rw [ofTokens?, hnone]
  rfl

end Program

/-! ## The causes of failures -/

/-- The cause lies in the calculator and not in what was typed. -/
def EvalError.isInternal : EvalError → Bool
  | unknownOperator _ | unknownInstruction _ _ => true
  | _ => false

/-- The machine knows what kind of instruction this is. -/
def Instruction.Expected : Instruction → Prop
  | binary symbol => (BinaryOp.ofSymbol? symbol).isSome = true
  | foreign _ _ => False
  | push _ _ | call _ | unclosed => True

namespace Program

variable {a : Arithmetic} {mode : AngleMode} {p : Program} {e : EvalError}

/-- The program of a text consists of instructions that the machine knows. -/
theorem expected_of_mem_compile {text : String} {i : Instruction} (h : i ∈ compile text) :
    i.Expected := by
  have hmem := (perm_ofTokens (Token.tokenize text)).subset h
  rcases List.mem_append.1 hmem with hmem | hmem
  · obtain ⟨t, ht, hi⟩ := List.mem_filterMap.1 hmem
    cases t with
    | number digits value =>
      obtain rfl := Option.some.inj hi
      trivial
    | operator op =>
      obtain rfl := Option.some.inj hi
      exact (Token.known_of_mem_tokenize ht).symbol
    | identifier name =>
      obtain rfl := Option.some.inj hi
      rw [Instruction.ofName]
      split <;> trivial
    | leftParen | rightParen => cases hi
  · rw [List.eq_of_mem_replicate hmem]
    trivial

/-- An instruction from a text fails for what its program says, not for what it is. -/
theorem isInternal_of_exec_eq_error {stack : List Float} {i : Instruction} (hi : i.Expected)
    (h : exec a mode stack i = .error e) : e.isInternal = false := by
  cases i with
  | push text value => cases value <;> cases h; rfl
  | binary symbol =>
    obtain ⟨op, hop⟩ := Option.isSome_iff_exists.1 hi
    obtain _ | ⟨y, _ | ⟨x, rest⟩⟩ := stack
    · cases h
      rfl
    · cases h
      rfl
    · simp [exec, hop] at h
  | call name =>
    obtain _ | ⟨x, rest⟩ := stack
    · cases h
      rfl
    · simp only [exec] at h
      split at h
      · split at h <;> cases h
        rfl
      · cases h
        rfl
  | unclosed =>
    cases h
    rfl
  | foreign kind symbol => exact hi.elim

/-- A program from a text fails for what it says, not for what it is. -/
theorem isInternal_of_execAll_eq_error {stack : List Float} (hp : ∀ i ∈ p, i.Expected)
    (h : execAll a mode stack p = .error e) : e.isInternal = false := by
  induction p generalizing stack with
  | nil => cases h
  | cons i p ih =>
    rw [execAll] at h
    cases hi : exec a mode stack i with
    | error error =>
      rw [hi] at h
      cases h
      exact isInternal_of_exec_eq_error (hp i (by simp)) hi
    | ok next =>
      rw [hi] at h
      exact ih (fun j hj => hp j (by simp [hj])) h

/-- If the program of a text fails, the cause is in the text. -/
theorem isInternal_of_run_compile_eq_error {text : String} (h : run a mode (compile text) = .error e) :
    e.isInternal = false := by
  rw [run] at h
  split at h
  next stack hrun =>
    unfold result at h
    split at h <;> cases h
    rfl
  next error hrun =>
    cases h
    exact isInternal_of_execAll_eq_error (fun i => expected_of_mem_compile) hrun

end Program

end DeskCalculator
