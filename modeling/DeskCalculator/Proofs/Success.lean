import DeskCalculator.Proofs.Conservation
import DeskCalculator.Proofs.Substitution

/-!
# What a value says about its text

Nothing is checked before a program runs, so all that is known of an expression with a value is that each
instruction of its program succeeded and that one number was left. Because the program consists of the
instructions of all tokens and of a mark for each parenthesis left open, this is a statement about the text:
`succeeds_only_if`.

An instruction that succeeds is `Known`, and it changes the height of the stack by its `rise` whatever the
stack holds. Both are facts about the instructions alone, so their order in the program does not matter.
-/

namespace DeskCalculator

/-! ## Instructions that can succeed -/

namespace Instruction

/-- The instruction pushes a value or applies something that is known. -/
def Known : Instruction → Prop
  | push _ value => value.isSome = true
  | binary symbol => (BinaryOp.ofSymbol? symbol).isSome = true
  | call name => (Function.ofName? name).isSome = true
  | unclosed | foreign _ _ => False

/-- How much higher the stack is after the instruction. -/
def rise : Instruction → Int
  | push _ _ => 1
  | binary _ => -1
  | call _ | unclosed | foreign _ _ => 0

end Instruction

namespace Program

variable {a : Arithmetic} {mode : AngleMode} {stack out : List Float}

/-- An instruction that succeeds is known and changes the height of the stack by its rise. -/
theorem known_and_length_of_exec {i : Instruction} (h : exec a mode stack i = .ok out) :
    i.Known ∧ (out.length : Int) = stack.length + i.rise := by
  cases i with
  | push text value =>
    cases value with
    | none => simp [exec] at h
    | some x =>
      obtain rfl : x :: stack = out := by simpa [exec] using h
      exact ⟨rfl, by simp [Instruction.rise]⟩
  | binary symbol =>
    obtain _ | ⟨y, _ | ⟨x, rest⟩⟩ := stack
    · simp [exec] at h
    · simp [exec] at h
    · simp only [exec] at h
      cases hop : BinaryOp.ofSymbol? symbol with
      | none => simp [hop] at h
      | some op =>
        obtain rfl : a.binary op x y :: rest = out := by simpa [hop] using h
        refine ⟨by simp [Instruction.Known, hop], ?_⟩
        simp only [Instruction.rise, List.length_cons]
        omega
  | call name =>
    obtain _ | ⟨x, rest⟩ := stack
    · simp [exec] at h
    · simp only [exec] at h
      cases hf : Function.ofName? name with
      | none => simp [hf] at h
      | some f =>
        cases hx : a.apply mode x f with
        | none => simp [hf, hx] at h
        | some y =>
          obtain rfl : y :: rest = out := by simpa [hf, hx] using h
          exact ⟨by simp [Instruction.Known, hf], by simp [Instruction.rise]⟩
  | unclosed => simp [exec] at h
  | foreign kind symbol => simp [exec] at h

/-- In a run that succeeds every instruction is known, and the height of the stack changes by their
rises. -/
theorem known_and_length_of_execAll {p : Program} (h : execAll a mode stack p = .ok out) :
    (∀ i ∈ p, i.Known) ∧ (out.length : Int) = stack.length + (p.map Instruction.rise).sum := by
  induction p generalizing stack with
  | nil =>
    obtain rfl : stack = out := by simpa [execAll] using h
    simp
  | cons i p ih =>
    rw [execAll] at h
    cases hi : exec a mode stack i with
    | error e => simp [hi] at h
    | ok next =>
      rw [hi] at h
      obtain ⟨hknown, hnext⟩ := known_and_length_of_exec hi
      obtain ⟨hrest, hout⟩ := ih h
      refine ⟨by simpa using ⟨hknown, hrest⟩, ?_⟩
      rw [hout, hnext, List.map_cons, List.sum_cons, Int.add_assoc]

end Program

/-! ## Parentheses with their partners -/

/-- Every opening parenthesis of the text has its partner further on, behind a balanced text. -/
def Text.OpeningsClosed (s : String) : Prop :=
  ∀ pre post : String, s = pre ++ "(" ++ post →
    ∃ part rest : String, post = part ++ ")" ++ rest ∧ Text.Balanced part

/-- If more than `inner` parentheses are closed in a text, it contains the place where the next one is. -/
theorem Bracket.exists_closing (depth inner : Nat) {cs : List Char}
    (h : leftOpen (depth + inner + 1) (cs.filterMap ofChar?) ≤ depth) :
    ∃ part rest, cs = part ++ ')' :: rest ∧ depthAfter? inner (part.filterMap ofChar?) = some 0 := by
  induction cs generalizing inner with
  | nil =>
    have h : depth + inner + 1 ≤ depth := h
    omega
  | cons c cs ih =>
    rw [filterMap_cons_eq, leftOpen_append] at h
    have hcons : ∀ part : List Char, (c :: part).filterMap ofChar? =
        (ofChar? c).toList ++ part.filterMap ofChar? := fun part => filterMap_cons_eq _ _ _
    cases hc : ofChar? c with
    | none =>
      rw [hc] at h
      obtain ⟨part, rest, rfl, hpart⟩ := ih _ h
      refine ⟨c :: part, rest, rfl, ?_⟩
      rw [hcons, hc]
      exact hpart
    | some b =>
      cases b with
      | opening =>
        rw [hc] at h
        obtain ⟨part, rest, rfl, hpart⟩ := ih (inner + 1) h
        refine ⟨c :: part, rest, rfl, ?_⟩
        rw [hcons, hc]
        exact hpart
      | closing =>
        obtain rfl : c = ')' := by
          unfold ofChar? at hc
          split at hc <;> simp_all
        -- this is the place, unless one of the inner parentheses is closed here
        cases inner with
        | zero => exact ⟨[], cs, rfl, rfl⟩
        | succ inner =>
          rw [hc] at h
          obtain ⟨part, rest, rfl, hpart⟩ := ih _ h
          refine ⟨')' :: part, rest, rfl, ?_⟩
          rw [hcons, hc]
          exact hpart

/-- A text that leaves nothing open closes each of its parentheses. -/
theorem Text.openingsClosed_of_leftOpen {s : String}
    (h : Bracket.leftOpen 0 (Text.brackets s) = 0) : Text.OpeningsClosed s := by
  rintro pre post rfl
  have hopen : Bracket.leftOpen (Bracket.leftOpen 0 (Text.brackets pre) + 0 + 1)
      (post.toList.filterMap Bracket.ofChar?) ≤ Bracket.leftOpen 0 (Text.brackets pre) := by
    have hsplit : Text.brackets (pre ++ "(" ++ post) =
        Text.brackets pre ++ .opening :: post.toList.filterMap Bracket.ofChar? := by
      simp [Text.brackets, Bracket.ofChar?]
    rw [hsplit, Bracket.leftOpen_append] at h
    exact (le_of_eq h).trans (Nat.zero_le _)
  obtain ⟨part, rest, hpost, hpart⟩ := Bracket.exists_closing _ 0 hopen
  refine ⟨String.ofList part, String.ofList rest, ?_, ?_⟩
  · rw [← String.toList_inj]
    simpa using hpost
  · rw [Text.Balanced, Text.brackets, String.toList_ofList]
    exact hpart

/-! ## Expressions with a value -/

namespace Token

/-- A number that the lexer reads has the value of its text. -/
theorem value_eq_of_mem_scan {operandNext : Bool} {s : List Char} {text : String}
    {value : Option Float} (h : .number text value ∈ scan operandNext s) :
    value = Numeral.read? text := by
  fun_induction scan operandNext s with
  | case1 => simp at h
  | case2 operandNext c rest hn ih =>
    rw [List.mem_cons] at h
    obtain h | h := h
    · obtain ⟨rfl, rfl⟩ := Token.number.inj h
      rfl
    · exact ih h
  | case3 operandNext c rest hn ha word ih =>
    rw [List.mem_cons] at h
    obtain h | h := h
    · simp only [word, ofWord] at h
      split at h <;> simp at h
    · exact ih h
  | case4 operandNext c rest hn ha tokens ih =>
    rw [List.mem_append] at h
    obtain h | h := h
    · -- the zero in front of a unary minus is the only number written by a sign
      simp only [tokens] at h
      split at h
      · cases operandNext
        · simp [ofMinus] at h
        · obtain h : .number text value = ofLiteral "0" := by simpa [ofMinus] using h
          obtain ⟨rfl, rfl⟩ := Token.number.inj h
          rfl
      · unfold ofSign at h
        split at h <;> simp at h
    · exact ih h

/-- A literal with several points has no value. -/
theorem count_le_of_read?_isSome {text : String} (h : (Numeral.read? text).isSome = true) :
    text.toList.count '.' ≤ 1 := by
  by_contra hcount
  have hmalformed : Numeral.isMalformed text.toList = true := by
    simp only [Numeral.isMalformed, Bool.or_eq_true, decide_eq_true_eq]
    exact .inl (by omega)
  simp [Numeral.read?, Numeral.read, hmalformed] at h

/-- The rises of the instructions of tokens: one more for a number, one less for an operator. -/
theorem sum_rise (ts : List Token) :
    ((ts.filterMap instruction?).map Instruction.rise).sum =
      (ts.countP (·.kind = .number) : Int) - ts.countP (·.kind = .operator) := by
  induction ts with
  | nil => rfl
  | cons t ts ih =>
    rw [filterMap_cons_eq, List.map_append, List.sum_append, ih, List.countP_cons, List.countP_cons]
    cases t with
    | number text value =>
      simp [instruction?, Instruction.rise, kind]
      omega
    | operator op =>
      simp [instruction?, Instruction.rise, kind]
      omega
    | identifier name =>
      simp only [instruction?, Instruction.ofName]
      split <;> simp [Instruction.rise, kind]
    | leftParen | rightParen => simp [instruction?, kind]

end Token

namespace Expression

variable {a : Arithmetic} {mode : AngleMode}

/-- An expression with a value leaves this value alone on the stack. -/
theorem execAll_of_evaluate_eq_ok {s : String} {x : Float} (hblank : Text.allBlank s = false)
    (h : evaluate a mode s = .ok x) :
    Program.execAll a mode [] (Program.ofTokens (Token.tokenize s)) = .ok [x] := by
  rw [evaluate_of_not_blank hblank, Program.run_eq_ok_iff] at h
  exact h

/-- The instruction of every token of an expression with a value is known, and no parenthesis is left
open. -/
theorem known_of_evaluate_eq_ok {s : String} {x : Float} (hblank : Text.allBlank s = false)
    (h : evaluate a mode s = .ok x) :
    (∀ t ∈ Token.tokenize s, ∀ i ∈ t.instruction?, i.Known) ∧
      Bracket.leftOpen 0 (Text.brackets s) = 0 := by
  have hperm := Program.perm_ofTokens (Token.tokenize s)
  obtain ⟨hknown, -⟩ := Program.known_and_length_of_execAll (execAll_of_evaluate_eq_ok hblank h)
  rw [brackets_tokenize] at hperm
  constructor
  · intro t ht i hi
    refine hknown i (hperm.mem_iff.2 (List.mem_append_left _ ?_))
    exact List.mem_filterMap.2 ⟨t, ht, hi⟩
  · -- a mark of an open parenthesis is never known
    by_contra hopen
    have hmem : Instruction.unclosed ∈
        List.replicate (Bracket.leftOpen 0 (Text.brackets s)) Instruction.unclosed :=
      List.mem_replicate.2 ⟨hopen, rfl⟩
    exact hknown .unclosed (hperm.mem_iff.2 (List.mem_append_right _ hmem))

/-- An expression with a value has one number more than operators. -/
theorem count_number_of_evaluate_eq_ok {s : String} {x : Float} (hblank : Text.allBlank s = false)
    (h : evaluate a mode s = .ok x) :
    (Token.tokenize s).countP (·.kind = .number) =
      (Token.tokenize s).countP (·.kind = .operator) + 1 := by
  have hperm := Program.perm_ofTokens (Token.tokenize s)
  obtain ⟨-, hlength⟩ := Program.known_and_length_of_execAll (execAll_of_evaluate_eq_ok hblank h)
  obtain ⟨-, hopen⟩ := known_of_evaluate_eq_ok hblank h
  rw [brackets_tokenize, hopen, List.replicate_zero, List.append_nil] at hperm
  rw [(hperm.map Instruction.rise).sum_eq, Token.sum_rise, List.length_singleton,
    List.length_nil] at hlength
  omega

/-- In an expression with a value every opening parenthesis is closed further on, there is one number
more than there are operators, no literal has several points and all names are known. In
particular, a parenthesis left open anywhere makes an expression fail. -/
theorem succeeds_only_if (a : Arithmetic) (mode : AngleMode) :
    (∀ (s : String) (x : Float), Text.allBlank s = false → evaluate a mode s = .ok x →
      Text.OpeningsClosed s ∧
      (Token.tokenize s).countP (·.kind = .number) =
        (Token.tokenize s).countP (·.kind = .operator) + 1 ∧
      (∀ text value, .number text value ∈ Token.tokenize s → text.toList.count '.' ≤ 1) ∧
      ∀ name, .identifier name ∈ Token.tokenize s → (Function.ofName? name).isSome = true) ∧
    ∀ s : String, ¬ Text.OpeningsClosed s → ∃ error, evaluate a mode s = .error error := by
  have hclosed : ∀ (s : String) (x : Float), Text.allBlank s = false → evaluate a mode s = .ok x →
      Text.OpeningsClosed s := fun s x hblank h =>
    Text.openingsClosed_of_leftOpen (known_of_evaluate_eq_ok hblank h).2
  refine ⟨fun s x hblank h => ⟨hclosed s x hblank h, count_number_of_evaluate_eq_ok hblank h, ?_, ?_⟩, ?_⟩
  · intro text value hmem
    have hknown := (known_of_evaluate_eq_ok hblank h).1 _ hmem _ rfl
    rw [Token.value_eq_of_mem_scan hmem] at hknown
    exact Token.count_le_of_read?_isSome hknown
  · intro name hmem
    have hknown := (known_of_evaluate_eq_ok hblank h).1 _ hmem _ rfl
    rw [Instruction.ofName] at hknown
    split at hknown
    · exact hknown.elim
    · exact hknown
  · intro s hopen
    cases h : evaluate a mode s with
    | error error => exact ⟨error, rfl⟩
    | ok x =>
      cases hblank : Text.allBlank s with
      | false => exact absurd (hclosed s x hblank h) hopen
      | true =>
        -- a blank text has no parenthesis
        refine absurd ?_ hopen
        rintro pre post rfl
        have hparen : Text.isBlank '(' = false := by decide
        simp [Text.allBlank, hparen] at hblank

/-- A nested expression that fulfils the conditions, and one that does not because a parenthesis is closed
before it is opened. -/
theorem succeeds_only_if_nested :
    Text.allBlank "2x(sqrt(4)--3)" = false ∧ evaluate .ieee .degrees "2x(sqrt(4)--3)" = .ok 10 ∧
      Text.OpeningsClosed "2x(sqrt(4)--3)" ∧
      (Token.tokenize "2x(sqrt(4)--3)").countP (·.kind = .number) =
        (Token.tokenize "2x(sqrt(4)--3)").countP (·.kind = .operator) + 1 ∧
      (∀ name, .identifier name ∈ Token.tokenize "2x(sqrt(4)--3)" →
        (Function.ofName? name).isSome = true) ∧
      ¬ Text.OpeningsClosed "2)+(3" ∧ ∃ error, evaluate .ieee .degrees "2)+(3" = .error error := by
  have hblank : Text.allBlank "2x(sqrt(4)--3)" = false := by decide +kernel
  have hvalue : evaluate .ieee .degrees "2x(sqrt(4)--3)" = .ok 10 := by decide +kernel
  have hopen : ¬ Text.OpeningsClosed "2)+(3" := by
    intro h
    obtain ⟨part, rest, hpost, -⟩ := h "2)+" "3" (by decide)
    have hmem : ')' ∈ "3".toList := by
      rw [hpost]
      simp
    simp at hmem
  obtain ⟨hsound, hfails⟩ := succeeds_only_if .ieee .degrees
  obtain ⟨hclosed, hcount, -, hnames⟩ := hsound _ _ hblank hvalue
  exact ⟨hblank, hvalue, hclosed, hcount, hnames, hopen, hfails _ hopen⟩

end Expression

end DeskCalculator
