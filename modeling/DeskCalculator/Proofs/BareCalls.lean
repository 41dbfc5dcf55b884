import DeskCalculator.Proofs.InfixPrograms
import DeskCalculator.Proofs.Spacing
import DeskCalculator.Proofs.Substitution
import DeskCalculator.Proofs.WrittenTokens

/-!
# Calls without parentheses

A name that no parenthesis follows takes for its argument all that follows it in its group. A `Phrase` is
a derivation tree of the infix grammar in which such bare calls stand in last position of a group:

    primary := number | ( sum ) | name ( sum ) | name sum

The argument of a bare call begins with a number or a name, because a parenthesis behind the name would
be its whole argument and a minus would be the binary one. So the trees are indexed by two marks, whether
they begin in this way and whether they stand last in their group.

`Phrase.full` puts the missing parentheses in. A phrase is arranged in the postorder of its full form,
whatever surrounds it (`Phrase.arranged`): the name waits like an operator that nothing behind it
releases, until the end of the group does. Therefore the parentheses of a call in last position mean
nothing, `compile_bare_eq_compile_call`.
-/

namespace DeskCalculator

/-- The derivation trees with bare calls. `worded` says that the tree begins with a number or a name, and
`last` that nothing of its group follows it. -/
inductive Phrase : (worded last : Bool) → Nonterminal → Type where
  | add {w v last : Bool} (l : Phrase w false .sum) (r : Phrase v last .product) : Phrase w last .sum
  | sub {w v last : Bool} (l : Phrase w false .sum) (r : Phrase v last .product) : Phrase w last .sum
  | ofProduct {w last : Bool} (e : Phrase w last .product) : Phrase w last .sum
  | mul {w v last : Bool} (l : Phrase w false .product) (r : Phrase v last .power) :
    Phrase w last .product
  | div {w v last : Bool} (l : Phrase w false .product) (r : Phrase v last .power) :
    Phrase w last .product
  | ofPower {w last : Bool} (e : Phrase w last .power) : Phrase w last .product
  | pow {w v last : Bool} (base : Phrase w false .signed) (exponent : Phrase v last .power) :
    Phrase w last .power
  | ofSigned {w last : Bool} (e : Phrase w last .signed) : Phrase w last .power
  | neg {w last : Bool} (e : Phrase w last .signed) : Phrase false last .signed
  | ofPrimary {w last : Bool} (e : Phrase w last .primary) : Phrase w last .signed
  | number {last : Bool} (literal : Literal) : Phrase true last .primary
  | group {w last : Bool} (e : Phrase w true .sum) : Phrase false last .primary
  | call {w last : Bool} (name : Word) (e : Phrase w true .sum) : Phrase true last .primary
  | bare (name : Word) (e : Phrase true true .sum) : Phrase true true .primary

namespace Phrase

variable {worded last : Bool} {n : Nonterminal}

/-- The tree with parentheses around the argument of every call. -/
def full {worded last : Bool} {n : Nonterminal} : Phrase worded last n → Infix n
  | add l r => .add l.full r.full
  | sub l r => .sub l.full r.full
  | ofProduct e => .ofProduct e.full
  | mul l r => .mul l.full r.full
  | div l r => .div l.full r.full
  | ofPower e => .ofPower e.full
  | pow base exponent => .pow base.full exponent.full
  | ofSigned e => .ofSigned e.full
  | neg e => .neg e.full
  | ofPrimary e => .ofPrimary e.full
  | number literal => .number literal
  | group e => .group e.full
  | call name e | bare name e => .call name e.full

/-- The lexemes that a tree derives. -/
def yield {worded last : Bool} {n : Nonterminal} : Phrase worded last n → List Lexeme
  | add l r => l.yield ++ .sign .add :: r.yield
  | sub l r => l.yield ++ .sign .sub :: r.yield
  | mul l r => l.yield ++ .sign .mul :: r.yield
  | div l r => l.yield ++ .sign .div :: r.yield
  | pow base exponent => base.yield ++ .sign .pow :: exponent.yield
  | neg e => .sign .sub :: e.yield
  | ofProduct e | ofPower e | ofSigned e | ofPrimary e => e.yield
  | number literal => [.number literal]
  | group e => .opening :: e.yield ++ [.closing]
  | call name e => .name name :: .opening :: e.yield ++ [.closing]
  | bare name e => .name name :: e.yield

/-- The tokens of a tree, as those of an `Infix`. -/
def tokens {worded last : Bool} {n : Nonterminal} : Phrase worded last n → List Token
  | add l r => l.tokens ++ .operator (.binary .add) :: r.tokens
  | sub l r => l.tokens ++ .operator (.binary .sub) :: r.tokens
  | mul l r => l.tokens ++ .operator (.binary .mul) :: r.tokens
  | div l r => l.tokens ++ .operator (.binary .div) :: r.tokens
  | pow base exponent => base.tokens ++ .operator (.binary .pow) :: exponent.tokens
  | neg e => .number "0" (some 0) :: .operator .unaryMinus :: e.tokens
  | ofProduct e | ofPower e | ofSigned e | ofPrimary e => e.tokens
  | number literal => [.number literal.text literal.value?]
  | group e => .leftParen :: e.tokens ++ [.rightParen]
  | call name e => .identifier name.text :: .leftParen :: e.tokens ++ [.rightParen]
  | bare name e => .identifier name.text :: e.tokens

/-- A tree leaves no operand expected behind it. Where it stands, one is expected, unless the tree begins
with a number or a name and so with no minus. -/
theorem tokenList_yield_append (t : Phrase worded last n) {operandNext : Bool}
    (h : worded = false → operandNext = true) (ls : List Lexeme) :
    Lexeme.tokenList operandNext (t.yield ++ ls) = t.tokens ++ Lexeme.tokenList false ls := by
  induction t generalizing operandNext ls with
  | add l r ihl ihr | sub l r ihl ihr | mul l r ihl ihr | div l r ihl ihr | pow l r ihl ihr =>
    simp only [yield, tokens, List.append_assoc, List.cons_append, ihl h, Lexeme.tokenList,
      Lexeme.tokens, Lexeme.opensOperand, ihr fun _ => rfl]
    rfl
  | neg e ih =>
    obtain rfl := h rfl
    simp only [yield, tokens, List.cons_append, Lexeme.tokenList, Lexeme.tokens,
      Lexeme.opensOperand, Infix.ofMinus_true, ih fun _ => rfl, List.nil_append]
  | ofProduct e ih | ofPower e ih | ofSigned e ih | ofPrimary e ih => exact ih h ls
  | number literal => rfl
  | group e ih | call name e ih =>
    simp only [yield, tokens, List.append_assoc, List.cons_append, Lexeme.tokenList,
      Lexeme.tokens, Lexeme.opensOperand, ih fun _ => rfl, List.nil_append]
  | bare name e ih =>
    -- behind the name no operand is expected, and the argument begins with no minus
    simp only [yield, tokens, List.cons_append, Lexeme.tokenList, Lexeme.tokens,
      Lexeme.opensOperand, @ih false (by simp), List.nil_append]

end Phrase

/-! ## Phrases among other tokens -/

namespace Program

/-- What a tree from `n` may leave waiting: its operators, and in last position whatever the end of the
group releases. -/
def MayWait (n : Nonterminal) : (last : Bool) → Pending → Prop
  | false, w => WaitsIn n w
  | true, w => w.isInside = true

/-- What a tree leaves waiting is released at the end of the group at the latest. -/
theorem MayWait.isInside {n : Nonterminal} {last : Bool} {w : Pending} (h : MayWait n last w) :
    w.isInside = true := by
  cases last with
  | false =>
    obtain ⟨op, -, rfl⟩ := h
    rfl
  | true => exact h

/-- A tree may leave its operators waiting wherever it stands. -/
theorem mayWait_operator {n : Nonterminal} {op : Operator} (h : op ∈ n.operators) (last : Bool) :
    MayWait n last (.operator op) := by
  cases last with
  | false => exact ⟨op, h, rfl⟩
  | true => rfl

/-- A tree with more operators may leave more waiting. -/
theorem MayWait.mono {m n : Nonterminal} (hops : ∀ op ∈ m.operators, op ∈ n.operators) {last : Bool}
    {w : Pending} (h : MayWait m last w) : MayWait n last w := by
  cases last with
  | false =>
    obtain ⟨op, hop, rfl⟩ := h
    exact mayWait_operator (hops op hop) false
  | true => exact h

/-- What waits stays when a phrase is read. A name that waits takes only a group for its argument, so it
stays in front of a phrase that begins with a number or a name. -/
def Admits (waiting : List Pending) (worded : Bool) (n : Nonterminal) : Prop :=
  ∀ p ∈ waiting.head?, (worded = false → ∀ f, p ≠ .name f) ∧
    ∀ op ∈ n.operators, p.goesBefore op = false

/-- What stays when any tree is read stays when a phrase is read. -/
theorem Guards.admits {waiting : List Pending} {n : Nonterminal} (h : Guards waiting n)
    (worded : Bool) : Admits waiting worded n :=
  fun p hp => ⟨fun _ => (h p hp).1, (h p hp).2⟩

/-- What stays in front of a phrase stays in front of one with fewer operators. -/
theorem Admits.mono {waiting : List Pending} {worded : Bool} {m n : Nonterminal}
    (h : Admits waiting worded n) (hops : ∀ op ∈ m.operators, op ∈ n.operators) :
    Admits waiting worded m :=
  fun p hp => ⟨(h p hp).1, fun op hop => (h p hp).2 op (hops op hop)⟩

/-- A waiting name stays in front of a phrase that begins with a number or a name. -/
theorem admits_name (f : String) (waiting : List Pending) (n : Nonterminal) :
    Admits (.name f :: waiting) true n := by
  intro p hp
  obtain rfl : .name f = p := by simpa using hp
  exact ⟨nofun, fun op _ => rfl⟩

/-- Two phrases around an operator. Only the right one can stand in last position. -/
theorem Leaves.joins {waiting : List Pending} {ts us : List Token} {p q : Program}
    {l r n : Nonterminal} {op : Operator} {w v last : Bool} (hjoins : Joins op l r n)
    (h : Admits waiting w n) (hl : Leaves (MayWait l false) waiting ts p)
    (hr : Admits (.operator op :: waiting) v r →
      Leaves (MayWait r last) (.operator op :: waiting) us q) :
    Leaves (MayWait n last) waiting (ts ++ .operator op :: us) (p ++ q ++ [.binary op.symbol]) := by
  obtain ⟨hop, hrelease, hkeep, hops⟩ := hjoins
  have hright := hr ((guards_operator waiting hkeep).admits v)
  refine hl.binary hright (fun p hp => (h p hp).2 op hop) ?_ (mayWait_operator hop last)
    fun w hw => hw.mono hops
  rintro w ⟨o, ho, rfl⟩
  exact hrelease o ho

end Program

open Program

namespace Phrase

variable {worded last : Bool} {n : Nonterminal}

/-- A phrase is arranged as its full form, up to what the end of its group releases. -/
theorem arranged (t : Phrase worded last n) {waiting : List Pending} (h : Admits waiting worded n) :
    Leaves (MayWait n last) waiting t.tokens t.full.postorder := by
  induction t generalizing waiting with
  | add l r ihl ihr => exact .joins (by decide) h (ihl h) ihr
  | sub l r ihl ihr => exact .joins (by decide) h (ihl h) ihr
  | mul l r ihl ihr => exact .joins (by decide) h (ihl h) ihr
  | div l r ihl ihr => exact .joins (by decide) h (ihl h) ihr
  | pow base exponent ihb ihe => exact .joins (by decide) h (ihb (h.mono (by decide))) ihe
  | neg e ih =>
    have hzero : Leaves (MayWait .primary false) waiting [.number "0" (some 0)]
        [.push "0" (some 0)] := leaves_of_written rfl rfl
    exact .joins (by decide) h hzero ih
  | ofProduct e ih | ofPower e ih | ofSigned e ih | ofPrimary e ih =>
    exact (ih (h.mono (by decide))).mono fun w hw => hw.mono (by decide)
  | number literal => exact leaves_of_written rfl rfl
  | group e ih =>
    obtain ⟨hwritten, hwaiting⟩ :=
      (ih ((guards_paren waiting .sum).admits _)).group fun w hw => hw.isInside
    rw [close_paren fun p hp => (h p hp).1 rfl] at hwritten hwaiting
    exact leaves_of_written (by rw [tokens, hwritten, List.append_nil]; rfl) hwaiting
  | call name e ih =>
    obtain ⟨hwritten, hwaiting⟩ :=
      (ih ((guards_paren (.name name.text :: waiting) .sum).admits _)).group fun w hw => hw.isInside
    have hname : step waiting (.identifier name.text) = ([], .name name.text :: waiting) := rfl
    refine leaves_of_written ?_ ?_
    · rw [tokens, List.cons_append, written, hname, hwritten, close, name.ofName_text]
      rfl
    · rw [tokens, List.cons_append, waitingAfter, hname, hwaiting, close]
  | bare name e ih =>
    -- the name joins what its argument leaves, as the last to be released
    obtain ⟨block, hblock, hwaiting, hwritten⟩ := ih (admits_name name.text waiting .sum)
    have hname : step waiting (.identifier name.text) = ([], .name name.text :: waiting) := rfl
    refine ⟨block ++ [.name name.text], ?_, ?_, ?_⟩
    · intro w hw
      rcases List.mem_append.1 hw with hw | hw
      · exact hblock w hw
      · rw [List.mem_singleton.1 hw]
        rfl
    · rw [tokens, waitingAfter, hname, hwaiting, List.append_assoc]
      rfl
    · rw [tokens, written, hname, List.nil_append, flush_append, ← List.append_assoc, hwritten]
      simp [Pending.instruction, full, Infix.postorder, name.ofName_text]

end Phrase

/-! ## Texts -/

/-- A name that no letter stands right in front of is a lexeme of its own. -/
theorem lexemes_append_name {pre : String} (h : ∀ c ∈ pre.toList.getLast?, c.isAlpha = false)
    (name : Word) : lexemes (pre ++ name.text) = lexemes pre ++ [.name name] := by
  have hcut : Lexeme.Separate pre.toList name.text.toList := by
    intro a ha b hb
    have hletter : b.isAlpha = true := name.letters b (List.mem_of_mem_head? hb)
    simp [h a ha, Literal.isNumeric_of_isAlpha hletter]
  rw [lexemes, String.toList_append, Lexeme.read_append hcut,
    Lexeme.read_letters name.letters name.ne_nil, Lexeme.ofWord, dif_neg name.ne_glyph]
  simp [lexemes]

/-- A text that begins with a closing parenthesis, or is empty, can be cut off. -/
theorem lexemes_append_closing {post : String} (h : ∀ c ∈ post.toList.head?, c = ')')
    (s : String) :
    lexemes (s ++ post) = lexemes s ++ lexemes post ∧ ∀ l ∈ (lexemes post).head?, l = .closing := by
  have hcut : Lexeme.Separate s.toList post.toList := by
    intro a _ b hb
    rw [h b hb]
    simp [Token.isNumeric]
  refine ⟨by rw [lexemes, String.toList_append, Lexeme.read_append hcut, lexemes, lexemes], ?_⟩
  rw [lexemes]
  cases hlist : post.toList with
  | nil => simp
  | cons c rest =>
    obtain rfl : c = ')' := h c (by simp [hlist])
    have hread := Lexeme.read_parenthesis (.inr ⟨rfl, rfl⟩) [] rest
    rw [List.nil_append, Lexeme.read_nil, List.nil_append] at hread
    simp [hread]

namespace Program

/-- The end of a group releases all that tokens in front of it have left. -/
theorem Leaves.arrange_append {allowed : Pending → Prop} {waiting : List Pending} {ts rest : List Token}
    {p : Program} (h : Leaves allowed waiting ts p) (hinside : ∀ w, allowed w → w.isInside = true)
    (hrest : ∀ t ∈ rest.head?, t = .rightParen) :
    arrange waiting (ts ++ rest) = p ++ arrange waiting rest := by
  obtain ⟨block, hblock, hwaiting, rfl⟩ := h
  rw [Program.arrange_append, hwaiting, List.append_assoc]
  congr 1
  cases rest with
  | nil => exact flush_append block waiting
  | cons t rest =>
    obtain rfl : t = .rightParen := hrest t rfl
    rw [arrange, arrange, step_rightParen_append fun w hw => hinside w (hblock w hw),
      List.append_assoc]

/-- A phrase at the end of a group, with a number or a name at its front, is compiled as its full form,
whatever stands before it and behind the group. -/
theorem compile_of_lexemes_eq {pre post s : String} {last : Bool} (t : Phrase true last .primary)
    (hs : lexemes s = lexemes pre ++ (t.yield ++ lexemes post))
    (hpost : ∀ l ∈ (lexemes post).head?, l = .closing) :
    compile s = before pre ++ (t.full.postorder ++
      arrange (waitingAfter [] (Token.tokenize pre)) (Lexeme.tokenList false (lexemes post))) := by
  have hadmits : Admits (waitingAfter [] (Token.tokenize pre)) true .primary :=
    fun p _ => ⟨by simp, by simp [Nonterminal.operators]⟩
  have hrest : ∀ u ∈ (Lexeme.tokenList false (lexemes post)).head?, u = .rightParen := by
    cases hlexemes : lexemes post with
    | nil => simp [Lexeme.tokenList]
    | cons l ls =>
      obtain rfl : l = .closing := hpost l (by simp [hlexemes])
      simp [Lexeme.tokenList, Lexeme.tokens]
  rw [compile, ofTokens, tokenize_eq, hs, Lexeme.tokenList_append, ← tokenize_eq,
    t.tokenList_yield_append (by simp), Program.arrange_append, before,
    (t.arranged hadmits).arrange_append (fun w hw => hw.isInside) hrest]

/-- Behind a name, the parentheses around the rest of its group mean nothing, if this rest follows the
grammar and begins with a number or a name. Nothing is asked of the text before the name but that it does
not end in a letter; what comes next is the end of the text or a closing parenthesis. -/
theorem compile_bare_eq_compile_call {pre post s : String} (name : Word) (t : Phrase true true .sum)
    (hs : lexemes s = t.yield) (hpre : ∀ c ∈ pre.toList.getLast?, c.isAlpha = false)
    (hpost : ∀ c ∈ post.toList.head?, c = ')') :
    compile (pre ++ name.text ++ " " ++ s ++ post) =
      compile (pre ++ name.text ++ "(" ++ s ++ ")" ++ post) := by
  obtain ⟨hcut, hclosing⟩ := lexemes_append_closing hpost (pre ++ name.text ++ " " ++ s)
  have hbare : lexemes (pre ++ name.text ++ " " ++ s ++ post) =
      lexemes pre ++ ((Phrase.bare name t).yield ++ lexemes post) := by
    have hspace : (pre ++ name.text ++ " " ++ s).toList =
        (pre ++ name.text).toList ++ ' ' :: s.toList := by simp
    rw [hcut, lexemes, hspace, Lexeme.read_filler (by decide), ← lexemes, ← lexemes,
      lexemes_append_name hpre, hs]
    simp [Phrase.yield]
  have hcall : lexemes (pre ++ name.text ++ "(" ++ s ++ ")" ++ post) =
      lexemes pre ++ ((.call name t : Phrase true true .primary).yield ++ lexemes post) := by
    rw [← Text.parenthesised, lexemes_parenthesised, lexemes_append_name hpre, hs]
    simp [Phrase.yield]
  rw [compile_of_lexemes_eq _ hbare hclosing, compile_of_lexemes_eq _ hcall hclosing]
  rfl

/-- The derivation of `2 + (3 * ln 4) ^ sqrt 16 - 1`, in which the root is taken of `16 - 1`. -/
def rootOfDifference : Phrase true true .sum :=
  let literal (text : String) (h : (∀ c ∈ text.toList, Token.isNumeric c = true) ∧
      ∃ c ∈ text.toList, c.isDigit = true) {last : Bool} : Phrase true last .signed :=
    .ofPrimary (.number ⟨text, h.1, h.2⟩)
  let sixteen : Phrase true false .sum :=
    .ofProduct (.ofPower (.ofSigned (literal "16" (by simp [Token.isNumeric]))))
  let one : Phrase true true .product :=
    .ofPower (.ofSigned (literal "1" (by simp [Token.isNumeric])))
  let four : Phrase true true .sum :=
    .ofProduct (.ofPower (.ofSigned (literal "4" (by simp [Token.isNumeric]))))
  let three : Phrase true false .product :=
    .ofPower (.ofSigned (literal "3" (by simp [Token.isNumeric])))
  let root : Phrase true true .primary := .bare ⟨"sqrt", by simp, by simp, by simp⟩ (.sub sixteen one)
  let logarithm : Phrase true true .primary := .bare ⟨"ln", by simp, by simp, by simp⟩ four
  .add (.ofProduct (.ofPower (.ofSigned (literal "2" (by simp [Token.isNumeric])))))
    (.ofPower (.pow
      (.ofPrimary (.group (.ofProduct (.mul three (.ofSigned (.ofPrimary logarithm))))))
      (.ofSigned (.ofPrimary root))))

/-- In front of the name there wait a power, a unary minus and the name of an open group; behind the
group a stray parenthesis follows. -/
theorem compile_bare_in_malformed_context :
    lexemes "2 + (3 * ln 4) ^ sqrt 16 - 1" = rootOfDifference.yield ∧
      compile ("cos(5 ^ -" ++ "abs" ++ " " ++ "2 + (3 * ln 4) ^ sqrt 16 - 1" ++ ") + 2) 3") =
        compile ("cos(5 ^ -" ++ "abs" ++ "(" ++ "2 + (3 * ln 4) ^ sqrt 16 - 1" ++ ")" ++ ") + 2) 3") := by
  have h : lexemes "2 + (3 * ln 4) ^ sqrt 16 - 1" = rootOfDifference.yield := by decide +kernel
  exact ⟨h, compile_bare_eq_compile_call ⟨"abs", by simp, by simp, by simp⟩ rootOfDifference h
    (by simp) (by simp)⟩

end Program

end DeskCalculator
