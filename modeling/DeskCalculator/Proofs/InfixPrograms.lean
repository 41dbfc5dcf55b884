import DeskCalculator.Proofs.Infix
import DeskCalculator.Proofs.Waiting

/-!
# Programs of infix expressions

The program of an expression that follows the grammar is the postorder of its derivation tree.

The invariant is about a tree in the middle of other tokens. Behind it there may wait anything that the
operators of the tree do not release (`Guards`). Then the tree writes a part of its postorder, and leaves
the rest of it waiting as a block of its own operators in front of what waited before (`Arranged`). A
looser operator, the end of the group and the end of the text all release the whole block. What holds of
any such block, whatever it may consist of, is said of `Leaves`.
-/

namespace DeskCalculator

/-- The operators that can stand outside all parentheses in a tree from a nonterminal. -/
def Nonterminal.operators : Nonterminal → List Operator
  | .sum => [.binary .add, .binary .sub, .binary .mul, .binary .div, .binary .pow, .unaryMinus]
  | .product => [.binary .mul, .binary .div, .binary .pow, .unaryMinus]
  | .power => [.binary .pow, .unaryMinus]
  | .signed => [.unaryMinus]
  | .primary => []

namespace Program

/-! ## Blocks that are left waiting -/

/-- The tokens write the program `p` up to a block of what is `allowed`, which they leave waiting. -/
def Leaves (allowed : Pending → Prop) (waiting : List Pending) (ts : List Token) (p : Program) :
    Prop :=
  ∃ block : List Pending, (∀ w ∈ block, allowed w) ∧ waitingAfter waiting ts = block ++ waiting ∧
    written waiting ts ++ flush block = p

/-- Tokens that leave something allowed also leave something of a wider kind. -/
theorem Leaves.mono {allowed more : Pending → Prop} {waiting : List Pending} {ts : List Token}
    {p : Program} (h : Leaves allowed waiting ts p) (hmore : ∀ w, allowed w → more w) :
    Leaves more waiting ts p := by
  obtain ⟨block, hblock, h⟩ := h
  exact ⟨block, fun w hw => hmore w (hblock w hw), h⟩

/-- An operator between two operands releases all that the left one leaves, and waits itself behind what
the right one leaves. -/
theorem Leaves.binary {left right allowed : Pending → Prop} {waiting : List Pending}
    {ts us : List Token} {p q : Program} {op : Operator} (hl : Leaves left waiting ts p)
    (hr : Leaves right (.operator op :: waiting) us q)
    (hguard : ∀ w ∈ waiting.head?, w.goesBefore op = false)
    (hrelease : ∀ w, left w → w.goesBefore op = true) (hop : allowed (.operator op))
    (hright : ∀ w, right w → allowed w) :
    Leaves allowed waiting (ts ++ .operator op :: us) (p ++ q ++ [.binary op.symbol]) := by
  obtain ⟨lefts, hlefts, hwl, rfl⟩ := hl
  obtain ⟨rights, hrights, hwr, rfl⟩ := hr
  have hstep : step (waitingAfter waiting ts) (.operator op) =
      (flush lefts, .operator op :: waiting) := by
    rw [hwl]
    exact step_operator (fun w hw => hrelease w (hlefts w hw)) hguard
  refine ⟨rights ++ [.operator op], ?_, ?_, ?_⟩
  · intro w hw
    rcases List.mem_append.1 hw with hw | hw
    · exact hright w (hrights w hw)
    · rw [List.mem_singleton.1 hw]
      exact hop
  · rw [waitingAfter_append, waitingAfter, hstep, hwr, List.append_assoc]
    rfl
  · rw [written_append, written, hstep, flush_append]
    simp [Pending.instruction]

/-- A closing parenthesis releases a block without parentheses. -/
theorem Leaves.group {allowed : Pending → Prop} {waiting : List Pending} {ts : List Token}
    {p : Program} (h : Leaves allowed (.paren :: waiting) ts p)
    (hinside : ∀ w, allowed w → w.isInside = true) :
    written waiting (.leftParen :: ts ++ [.rightParen]) = p ++ (close (.paren :: waiting)).1 ∧
      waitingAfter waiting (.leftParen :: ts ++ [.rightParen]) = (close (.paren :: waiting)).2 := by
  obtain ⟨block, hblock, hw, rfl⟩ := h
  have hstep : step (waitingAfter (.paren :: waiting) ts) .rightParen =
      (flush block ++ (close (.paren :: waiting)).1, (close (.paren :: waiting)).2) := by
    rw [hw]
    exact step_rightParen (fun w hw => hinside w (hblock w hw)) waiting
  have hopen : step waiting .leftParen = ([], .paren :: waiting) := rfl
  rw [List.cons_append, written, waitingAfter, hopen, List.nil_append, written_append,
    waitingAfter_append, written, waitingAfter, hstep]
  simp [written, waitingAfter]

/-- Tokens after which nothing new waits leave nothing that is not allowed. -/
theorem leaves_of_written {allowed : Pending → Prop} {waiting : List Pending} {ts : List Token}
    {p : Program} (hwritten : written waiting ts = p) (hwaiting : waitingAfter waiting ts = waiting) :
    Leaves allowed waiting ts p :=
  ⟨[], by simp, by simp [hwaiting], by simp [hwritten]⟩

/-! ## Trees among other tokens -/

/-- What waits stays when a tree from `n` is read: no operator of the tree releases it, and it is no name
that would take the first group of the tree for its argument. -/
def Guards (waiting : List Pending) (n : Nonterminal) : Prop :=
  ∀ p ∈ waiting.head?, (∀ f, p ≠ .name f) ∧ ∀ op ∈ n.operators, p.goesBefore op = false

/-- The tokens write the program `p` up to a block of operators of `n`, which they leave waiting. -/
def Arranged (n : Nonterminal) (waiting : List Pending) (ts : List Token) (p : Program) : Prop :=
  ∃ block : List Operator, (∀ op ∈ block, op ∈ n.operators) ∧
    waitingAfter waiting ts = block.map .operator ++ waiting ∧
    written waiting ts ++ flush (block.map .operator) = p

/-- What stays in front of a tree stays in front of one with fewer operators. -/
theorem Guards.mono {waiting : List Pending} {m n : Nonterminal} (h : Guards waiting n)
    (hops : ∀ op ∈ m.operators, op ∈ n.operators) : Guards waiting m :=
  fun p hp => ⟨(h p hp).1, fun op hop => (h p hp).2 op (hops op hop)⟩

/-- Tokens that leave operators of one kind of tree leave operators of a wider kind. -/
theorem Arranged.mono {waiting : List Pending} {ts : List Token} {p : Program} {m n : Nonterminal}
    (h : Arranged m waiting ts p) (hops : ∀ op ∈ m.operators, op ∈ n.operators) :
    Arranged n waiting ts p := by
  obtain ⟨block, hblock, h⟩ := h
  exact ⟨block, fun op hop => hops op (hblock op hop), h⟩

/-- An operator guards what stands on its right, if none of the operators there releases it. -/
theorem guards_operator {op : Operator} {n : Nonterminal} (waiting : List Pending)
    (h : ∀ next ∈ n.operators, op.rank.goesBefore next.rank = false) :
    Guards (.operator op :: waiting) n := by
  intro p hp
  obtain rfl : .operator op = p := by simpa using hp
  exact ⟨fun f => by simp, h⟩

/-- An opening parenthesis stays, whatever tree is read. -/
theorem guards_paren (waiting : List Pending) (n : Nonterminal) : Guards (.paren :: waiting) n := by
  intro p hp
  obtain rfl : Pending.paren = p := by simpa using hp
  exact ⟨fun f => by simp, fun op _ => rfl⟩

/-- The operator takes a tree from `l` and one from `r` to a tree from `n`: it releases every operator that
its left operand leaves waiting, and no operator of its right operand releases it. -/
def Joins (op : Operator) (l r n : Nonterminal) : Prop :=
  op ∈ n.operators ∧ (∀ o ∈ l.operators, o.rank.goesBefore op.rank = true) ∧
    (∀ o ∈ r.operators, op.rank.goesBefore o.rank = false) ∧ ∀ o ∈ r.operators, o ∈ n.operators

instance (op : Operator) (l r n : Nonterminal) : Decidable (Joins op l r n) :=
  inferInstanceAs (Decidable (_ ∧ _ ∧ _ ∧ _))

/-- The operators of `n`, as they wait. -/
def WaitsIn (n : Nonterminal) (w : Pending) : Prop :=
  ∃ op ∈ n.operators, .operator op = w

/-- What is arranged as operators of `n` leaves nothing else waiting. -/
theorem arranged_iff_leaves {n : Nonterminal} {waiting : List Pending} {ts : List Token}
    {p : Program} : Arranged n waiting ts p ↔ Leaves (WaitsIn n) waiting ts p := by
  constructor
  · rintro ⟨block, hblock, h⟩
    refine ⟨block.map .operator, fun w hw => ?_, h⟩
    obtain ⟨op, hop, rfl⟩ := List.mem_map.1 hw
    exact ⟨op, hblock op hop, rfl⟩
  · rintro ⟨block, hblock, h⟩
    obtain ⟨ops, rfl⟩ : ∃ ops : List Operator, ops.map .operator = block := by
      have hrange : block ∈ Set.range (List.map Pending.operator) := by
        rw [Set.range_list_map]
        intro w hw
        obtain ⟨op, -, h⟩ := hblock w hw
        exact ⟨op, h⟩
      exact hrange
    refine ⟨ops, fun op hop => ?_, h⟩
    obtain ⟨o, ho, heq⟩ := hblock _ (List.mem_map_of_mem hop)
    rwa [← Pending.operator.inj heq]

/-- Two operands around an operator: the left one is released, and the right one joins the operator in
the block. -/
theorem Arranged.binary {waiting : List Pending} {ts us : List Token} {p q : Program}
    {l r n : Nonterminal} {op : Operator} (hjoins : Joins op l r n) (h : Guards waiting n)
    (hl : Arranged l waiting ts p)
    (hr : Guards (.operator op :: waiting) r → Arranged r (.operator op :: waiting) us q) :
    Arranged n waiting (ts ++ .operator op :: us) (p ++ q ++ [.binary op.symbol]) := by
  obtain ⟨hop, hrelease, hkeep, hops⟩ := hjoins
  have hright := hr (guards_operator waiting hkeep)
  rw [arranged_iff_leaves] at hl hright ⊢
  refine hl.binary hright (fun w hw => (h w hw).2 op hop) ?_ ⟨op, hop, rfl⟩ ?_
  · rintro w ⟨o, ho, rfl⟩
    exact hrelease o ho
  · rintro w ⟨o, ho, rfl⟩
    exact ⟨o, hops o ho, rfl⟩

/-- A group: the closing parenthesis releases the whole block. -/
theorem Arranged.group {waiting : List Pending} {ts : List Token} {p : Program} {n : Nonterminal}
    (h : Arranged n (.paren :: waiting) ts p) :
    written waiting (.leftParen :: ts ++ [.rightParen]) = p ++ (close (.paren :: waiting)).1 ∧
      waitingAfter waiting (.leftParen :: ts ++ [.rightParen]) = (close (.paren :: waiting)).2 := by
  refine (arranged_iff_leaves.1 h).group ?_
  rintro w ⟨op, -, rfl⟩
  rfl

/-- A closing parenthesis takes the opening one right on top. -/
theorem close_paren {waiting : List Pending} (h : ∀ p ∈ waiting.head?, ∀ f, p ≠ .name f) :
    close (.paren :: waiting) = ([], waiting) := by
  cases waiting with
  | nil => rfl
  | cons p waiting =>
    cases p with
    | name f => exact absurd rfl (h (.name f) rfl f)
    | operator op => rfl
    | paren => rfl

/-- A finished group leaves nothing waiting, and so is arranged under every nonterminal. -/
theorem arranged_of_written {n : Nonterminal} {waiting : List Pending} {ts : List Token}
    {p : Program} (hwritten : written waiting ts = p) (hwaiting : waitingAfter waiting ts = waiting) :
    Arranged n waiting ts p :=
  arranged_iff_leaves.2 (leaves_of_written hwritten hwaiting)

end Program

open Program

namespace Word

/-- A word is no parenthesis. -/
theorem ofName_text (w : Word) : Instruction.ofName w.text = .call w.text := by
  rw [Instruction.ofName, if_neg]
  intro h
  have := w.letters '(' (by rw [h]; decide)
  exact absurd this (by decide)

end Word

namespace Infix

/-- Every tree is arranged as one operand, whatever waits behind it on guard. -/
theorem arranged {n : Nonterminal} (t : Infix n) {waiting : List Pending}
    (h : Guards waiting n) : Arranged n waiting t.tokens t.postorder := by
  induction t generalizing waiting with
  | add l r ihl ihr => exact .binary (by decide) h (ihl h) ihr
  | sub l r ihl ihr => exact .binary (by decide) h (ihl h) ihr
  | mul l r ihl ihr => exact .binary (by decide) h (ihl h) ihr
  | div l r ihl ihr => exact .binary (by decide) h (ihl h) ihr
  | pow base exponent ihb ihe =>
    -- unlike the others, a power stands on the right of its operator, so the base is the tighter side
    exact .binary (by decide) h (ihb (h.mono (by decide))) ihe
  | neg e ih =>
    have hzero : Arranged .primary waiting [.number "0" (some 0)] [.push "0" (some 0)] :=
      arranged_of_written rfl rfl
    exact .binary (by decide) h hzero ih
  | ofProduct e ih | ofPower e ih | ofSigned e ih | ofPrimary e ih =>
    exact (ih (h.mono (by decide))).mono (by decide)
  | number literal => exact arranged_of_written rfl rfl
  | group e ih =>
    obtain ⟨hwritten, hwaiting⟩ := (ih (guards_paren waiting .sum)).group
    rw [close_paren fun p hp => (h p hp).1] at hwritten hwaiting
    exact arranged_of_written (by rw [tokens, hwritten, List.append_nil]; rfl) hwaiting
  | call name e ih =>
    -- the name waits right behind the group, which calls it when it closes
    obtain ⟨hwritten, hwaiting⟩ := (ih (guards_paren (.name name.text :: waiting) .sum)).group
    have hname : step waiting (.identifier name.text) = ([], .name name.text :: waiting) := rfl
    refine arranged_of_written ?_ ?_
    · rw [tokens, List.cons_append, written, hname, hwritten, close, name.ofName_text]
      rfl
    · rw [tokens, List.cons_append, waitingAfter, hname, hwaiting, close]

/-- The tokens of a tree are arranged in its postorder. -/
theorem ofTokens_tokens (t : Infix .sum) : ofTokens t.tokens = t.postorder := by
  have hguards : Guards [] .sum := by simp [Guards]
  obtain ⟨block, -, hwaiting, hwritten⟩ := t.arranged hguards
  rw [ofTokens, arrange_eq_written, hwaiting, List.append_nil, hwritten]

/-- The program of an expression that derives from the grammar is the postorder of its derivation. -/
theorem compile_eq_postorder (t : Infix .sum) (s : String) (h : lexemes s = t.yield) :
    compile s = t.postorder := by
  rw [compile, tokenize_of_lexemes_eq h, ofTokens_tokens]

/-- The derivation of `-2 ^ -.5 - sin(2) x 2`. -/
def powerLessSine : Infix .sum :=
  let two : Infix .primary := .number ⟨"2", by simp [Token.isNumeric], by simp⟩
  let half : Infix .primary := .number ⟨".5", by simp [Token.isNumeric], by simp⟩
  let sine : Infix .primary :=
    .call ⟨"sin", by simp, by simp, by simp⟩ (.ofProduct (.ofPower (.ofSigned (.ofPrimary two))))
  .sub
    (.ofProduct (.ofPower (.pow (.neg (.ofPrimary two)) (.ofSigned (.neg (.ofPrimary half))))))
    (.mul (.ofPower (.ofSigned (.ofPrimary sine))) (.ofSigned (.ofPrimary two)))

/-- A unary minus before a power and in its exponent, and a difference from a product with a function. -/
theorem compile_powerLessSine :
    lexemes "-2 ^ -.5 - sin(2) x 2" = powerLessSine.yield ∧
      compile "-2 ^ -.5 - sin(2) x 2" =
        [.push "0" (some 0), .push "2" (some 2), .binary "-", .push "0" (some 0),
          .push ".5" (some 0.5), .binary "-", .binary "^", .push "2" (some 2), .call "sin",
          .push "2" (some 2), .binary "*", .binary "-"] := by
  have h : lexemes "-2 ^ -.5 - sin(2) x 2" = powerLessSine.yield := by decide +kernel
  refine ⟨h, ?_⟩
  rw [compile_eq_postorder powerLessSine _ h]
  decide +kernel

end Infix

end DeskCalculator
