import DeskCalculator.Proofs.Literal
import DeskCalculator.Text.Blank

/-!
# Lexemes

What is written in an expression, before anything is decided about it: literals, names, operator signs
and parentheses. `lexemes` reads them off a text; the other spellings of `*` and `/` are the same sign,
and characters that belong to nothing leave no lexeme.

The lexer does this and one thing more: it tells the minus that begins an operand from the other one, by
the lexeme before it. `tokenize_eq` separates the two tasks. `lexemes_append` says where a text may be cut.
-/

namespace DeskCalculator

/-- A run of letters other than the multiplication sign `x`. -/
structure Word where
  text : String
  letters : ∀ c ∈ text.toList, c.isAlpha = true
  ne_nil : text.toList ≠ []
  ne_glyph : text.toList ≠ ['x']
  deriving DecidableEq

/-- A unit of an expression as it is written. -/
inductive Lexeme where
  | number (literal : Literal)
  | name (word : Word)
  | sign (op : BinaryOp)
  | opening
  | closing
  deriving DecidableEq

/-! ## Reading lexemes -/

/-- A literal begins with a digit or a point. -/
theorem isNumeric_of_beginsNumber {c : Char} {rest : List Char}
    (h : Token.beginsNumber c rest = true) : Token.isNumeric c = true := by
  revert h
  simp only [Token.beginsNumber, Token.isNumeric, Bool.or_eq_true, Bool.and_eq_true]
  exact Or.imp_right And.left

/-- What is neither a digit nor a point begins no literal. -/
theorem beginsNumber_eq_false {c : Char} (h : Token.isNumeric c = false) (rest : List Char) :
    Token.beginsNumber c rest = false := by
  by_contra hn
  rw [isNumeric_of_beginsNumber (by simpa using hn)] at h
  cases h

/-- The literal that begins with `c`, when `rest` follows. -/
def Literal.ofRun (c : Char) (rest : List Char) (h : Token.beginsNumber c rest = true) : Literal where
  text := String.ofList (c :: rest.takeWhile Token.isNumeric)
  numeric := by
    intro d hd
    rw [String.toList_ofList, List.mem_cons] at hd
    rcases hd with rfl | hd
    · exact isNumeric_of_beginsNumber h
    · exact List.mem_takeWhile_imp hd
  digit := by
    rw [String.toList_ofList]
    cases hc : c.isDigit with
    | true => exact ⟨c, by simp, hc⟩
    | false =>
      -- a point begins a number only before a digit
      cases rest with
      | nil => simp [Token.beginsNumber, hc] at h
      | cons d rest =>
        have hd : d.isDigit = true := by
          simp [Token.beginsNumber, hc] at h
          exact h.2
        exact ⟨d, by simp [Token.isNumeric, hd], hd⟩

/-- The literal of a run is spelled as the whole run. -/
@[simp] theorem Literal.text_ofRun {c : Char} {rest : List Char}
    (h : Token.beginsNumber c rest = true) :
    (ofRun c rest h).text = String.ofList (c :: rest.takeWhile Token.isNumeric) := rfl

namespace Lexeme

/-- The lexeme that a single character is, unless it belongs to a number or a word. -/
def ofChar? : Char → Option Lexeme
  | '+' => some (.sign .add)
  | '-' => some (.sign .sub)
  | '*' | '×' => some (.sign .mul)
  | '/' | '÷' => some (.sign .div)
  | '^' => some (.sign .pow)
  | '(' => some .opening
  | ')' => some .closing
  | _ => none

/-- The lexeme of a run of letters. -/
def ofWord (word : List Char) (h : ∀ c ∈ word, c.isAlpha = true) (hne : word ≠ []) : Lexeme :=
  if hx : word = ['x'] then .sign .mul
  else .name ⟨String.ofList word, by rwa [String.toList_ofList], by rwa [String.toList_ofList],
    by rwa [String.toList_ofList]⟩

/-- The lexemes of a list of characters. -/
def read : List Char → List Lexeme
  | [] => []
  | c :: rest =>
    if h : Token.beginsNumber c rest = true then
      number (.ofRun c rest h) :: read (rest.dropWhile Token.isNumeric)
    else if h : c.isAlpha = true then
      ofWord (c :: rest.takeWhile Char.isAlpha)
          (by simpa [h] using fun d hd => List.mem_takeWhile_imp hd) (by simp) ::
        read (rest.dropWhile Char.isAlpha)
    else (ofChar? c).toList ++ read rest
  termination_by s => s.length
  decreasing_by
    · exact Nat.lt_succ_of_le (List.dropWhile_suffix _).length_le
    · exact Nat.lt_succ_of_le (List.dropWhile_suffix _).length_le
    · exact Nat.lt_succ_self _

@[simp] theorem read_nil : read [] = [] := by
  rw [read]

/-- A literal takes its whole run of digits and points. -/
theorem read_of_beginsNumber {c : Char} {rest : List Char} (h : Token.beginsNumber c rest = true) :
    read (c :: rest) = number (.ofRun c rest h) :: read (rest.dropWhile Token.isNumeric) := by
  rw [read, dif_pos h]

/-- A word takes its whole run of letters. -/
theorem read_of_isAlpha {c : Char} {rest : List Char} (h : c.isAlpha = true)
    (hn : Token.beginsNumber c rest = false) :
    read (c :: rest) =
      ofWord (c :: rest.takeWhile Char.isAlpha)
          (by simpa [h] using fun d hd => List.mem_takeWhile_imp hd) (by simp) ::
        read (rest.dropWhile Char.isAlpha) := by
  rw [read, dif_neg (by simp [hn]), dif_pos h]

/-- Any other character is a lexeme by itself or none. -/
theorem read_of_other {c : Char} {rest : List Char} (h : c.isAlpha = false)
    (hn : Token.beginsNumber c rest = false) :
    read (c :: rest) = (ofChar? c).toList ++ read rest := by
  rw [read, dif_neg (by simp [hn]), dif_neg (by simp [h])]

/-! ## From lexemes to tokens -/

/-- Whether a minus right after the lexeme begins an operand. -/
def opensOperand : Lexeme → Bool
  | sign _ | opening => true
  | _ => false

/-- The tokens of one lexeme; `operandNext` says whether an operand is expected. -/
def tokens (operandNext : Bool) : Lexeme → List Token
  | number l => [.number l.text l.value?]
  | name w => [.identifier w.text]
  | sign .sub => Token.ofMinus operandNext
  | sign op => [.operator (.binary op)]
  | opening => [.leftParen]
  | closing => [.rightParen]

/-- The tokens of a list of lexemes. -/
def tokenList (operandNext : Bool) : List Lexeme → List Token
  | [] => []
  | l :: ls => l.tokens operandNext ++ tokenList l.opensOperand ls

/-- Whether an operand is expected after the lexemes, if it was before them when `operandNext`. -/
def operandAfter (operandNext : Bool) (ls : List Lexeme) : Bool :=
  (ls.getLast?.map opensOperand).getD operandNext

/-- What is expected after a list is decided by its last lexeme, or by the first if there is no other. -/
theorem operandAfter_cons (operandNext : Bool) (l : Lexeme) (ls : List Lexeme) :
    operandAfter operandNext (l :: ls) = operandAfter l.opensOperand ls := by
  cases ls with
  | nil => rfl
  | cons m ls =>
    rw [operandAfter, operandAfter, List.getLast?_cons_cons, List.getLast?_cons]
    rfl

/-- Behind the tokens of some lexemes come those of the others, read as what they leave expected. -/
theorem tokenList_append (operandNext : Bool) (ls ms : List Lexeme) :
    tokenList operandNext (ls ++ ms) =
      tokenList operandNext ls ++ tokenList (operandAfter operandNext ls) ms := by
  induction ls generalizing operandNext with
  | nil => rfl
  | cons l ls ih => simp only [List.cons_append, tokenList, ih, operandAfter_cons, List.append_assoc]

/-- The token of a run of letters is the one of its lexeme. -/
theorem tokens_ofWord (operandNext : Bool) (word : List Char)
    (h : ∀ c ∈ word, c.isAlpha = true) (hne : word ≠ []) :
    (ofWord word h hne).tokens operandNext = [Token.ofWord word] ∧
      (ofWord word h hne).opensOperand = (Token.ofWord word).opensOperand := by
  by_cases hx : word = ['x']
  · simp [ofWord, Token.ofWord, hx, tokens, opensOperand, Token.opensOperand]
  · simp [ofWord, Token.ofWord, hx, tokens, opensOperand, Token.opensOperand]

/-- The tokens of a character that is neither of a number nor of a word are those of its lexeme. -/
theorem tokenList_ofChar? (operandNext : Bool) (c : Char) (ls : List Lexeme) :
    tokenList operandNext ((ofChar? c).toList ++ ls) =
      (if c = '-' then Token.ofMinus operandNext else Token.ofSign c) ++
        tokenList (Token.operandAfter operandNext
          (if c = '-' then Token.ofMinus operandNext else Token.ofSign c)) ls := by
  unfold ofChar?
  split
  all_goals try rfl
  · cases operandNext <;> rfl
  · rename_i hplus hminus htimes _ hover _ hpow hopen hclose
    have hsign : Token.ofSign c = [] := by
      unfold Token.ofSign
      split <;> simp_all
    rw [if_neg hminus, hsign]
    rfl

/-- The lexer reads the lexemes and turns them into tokens. -/
theorem scan_eq_tokenList (operandNext : Bool) (s : List Char) :
    Token.scan operandNext s = tokenList operandNext (read s) := by
  fun_induction read s generalizing operandNext with
  | case1 => simp [tokenList]
  | case2 c rest h ih =>
    rw [Token.scan_of_beginsNumber h, ih, tokenList, tokens, ← Literal.ofLiteral_text]
    rfl
  | case3 c rest hn h ih =>
    rw [Token.scan_of_isAlpha h (by simpa using hn), ih]
    obtain ⟨htokens, hopens⟩ := tokens_ofWord operandNext (c :: rest.takeWhile Char.isAlpha)
      (by simpa [h] using fun d hd => List.mem_takeWhile_imp hd) (by simp)
    rw [tokenList, htokens, hopens]
    rfl
  | case4 c rest hn h ih =>
    rw [Token.scan, if_neg hn, if_neg h, tokenList_ofChar?]
    exact congrArg _ (ih _)

/-! ## Cutting a text

A number and a word go on as long as they can, so a text may be cut between two characters unless both
are letters or both belong to numbers. A point in front of the cut is no exception: it begins a number
only before a digit.
-/

/-- No run goes across the place between the two texts. -/
def Separate (xs ys : List Char) : Prop :=
  ∀ a ∈ xs.getLast?, ∀ b ∈ ys.head?,
    ¬ (a.isAlpha = true ∧ b.isAlpha = true) ∧
      ¬ (Token.isNumeric a = true ∧ Token.isNumeric b = true)

/-- A text is also apart from what its later characters are apart from. -/
theorem Separate.of_cons {c : Char} {xs ys : List Char} (h : Separate (c :: xs) ys) :
    Separate xs ys := by
  intro a ha
  cases xs with
  | nil => simp at ha
  | cons d xs => exact h a (by rwa [List.getLast?_cons_cons])

/-- What is left of a text after its first characters stays apart from the rest. -/
theorem Separate.dropWhile {xs ys : List Char} (h : Separate xs ys) (p : Char → Bool) :
    Separate (xs.dropWhile p) ys := by
  induction xs with
  | nil => exact h
  | cons c xs ih =>
    rw [List.dropWhile_cons]
    split
    · exact ih h.of_cons
    · exact h

/-- A run that does not go across the cut ends where it ended before. -/
theorem run_append {p : Char → Bool} {c : Char} (xs ys : List Char) (hc : p c = true)
    (h : ∀ a ∈ (c :: xs).getLast?, ∀ b ∈ ys.head?, ¬ (p a = true ∧ p b = true)) :
    (xs ++ ys).takeWhile p = xs.takeWhile p ∧ (xs ++ ys).dropWhile p = xs.dropWhile p ++ ys := by
  induction xs generalizing c with
  | nil =>
    cases ys with
    | nil => simp
    | cons b ys =>
      have hb : p b = false := by
        simpa [hc] using h c (by simp) b (by simp)
      simp [hb]
  | cons d xs ih =>
    cases hd : p d with
    | false => simp [hd]
    | true =>
      have := ih hd fun a ha => h a (by rwa [List.getLast?_cons_cons])
      simp [hd, this]

/-- Whether a literal begins is not decided across a place where no run goes on. -/
theorem beginsNumber_append {c : Char} {xs ys : List Char} (h : Separate (c :: xs) ys) :
    Token.beginsNumber c (xs ++ ys) = Token.beginsNumber c xs := by
  cases xs with
  | cons d xs => rfl
  | nil =>
    cases ys with
    | nil => rfl
    | cons b ys =>
      have hb := (h c (by simp) b (by simp)).2
      by_cases hc : c = '.'
      · subst hc
        have : b.isDigit = false := by
          by_contra hdigit
          exact hb ⟨rfl, by simp [Token.isNumeric, hdigit]⟩
        simp [Token.beginsNumber, this]
      · simp [Token.beginsNumber, hc]

/-- The lexemes of a text that is cut where no run goes on are those of the two parts. -/
theorem read_append {xs ys : List Char} (h : Separate xs ys) :
    read (xs ++ ys) = read xs ++ read ys := by
  fun_induction read xs with
  | case1 => rfl
  | case2 c rest hn ih =>
    obtain ⟨htake, hdrop⟩ := run_append rest ys (isNumeric_of_beginsNumber hn)
      fun a ha b hb => (h a ha b hb).2
    have hn' : Token.beginsNumber c (rest ++ ys) = true := by rw [beginsNumber_append h, hn]
    have hrun : Literal.ofRun c (rest ++ ys) hn' = Literal.ofRun c rest hn :=
      Literal.ext (by rw [Literal.text_ofRun, Literal.text_ofRun, htake])
    rw [List.cons_append, read_of_beginsNumber hn', hrun, hdrop, ih (h.of_cons.dropWhile _),
      List.cons_append]
  | case3 c rest hn ha ih =>
    obtain ⟨htake, hdrop⟩ := run_append rest ys ha
      fun a ha b hb => (h a ha b hb).1
    have hn' : Token.beginsNumber c (rest ++ ys) = false := by
      rw [beginsNumber_append h]
      simpa using hn
    rw [List.cons_append, read_of_isAlpha ha hn', hdrop, ih (h.of_cons.dropWhile _),
      List.cons_append]
    simp only [htake]
  | case4 c rest hn ha ih =>
    have hn' : Token.beginsNumber c (rest ++ ys) = false := by
      rw [beginsNumber_append h]
      simpa using hn
    rw [List.cons_append, read_of_other (by simpa using ha) hn', ih h.of_cons,
      List.append_assoc]

/-- A character that belongs to no number and no word is read by itself, whatever stands around it. -/
theorem read_append_cons {c : Char} (ha : c.isAlpha = false) (hn : Token.isNumeric c = false)
    (xs ys : List Char) : read (xs ++ c :: ys) = read xs ++ ((ofChar? c).toList ++ read ys) := by
  have hcut : Separate xs (c :: ys) := by
    intro a _ b hb
    obtain rfl : c = b := by simpa using hb
    simp [ha, hn]
  rw [read_append hcut, read_of_other ha (beginsNumber_eq_false hn ys)]

/-- A parenthesis, and what stands before and after it. -/
theorem read_parenthesis {c : Char} {l : Lexeme} (hc : c = '(' ∧ l = opening ∨ c = ')' ∧ l = closing)
    (xs ys : List Char) : read (xs ++ c :: ys) = read xs ++ l :: read ys := by
  rcases hc with ⟨rfl, rfl⟩ | ⟨rfl, rfl⟩
  · exact read_append_cons (by decide) (by decide) xs ys
  · exact read_append_cons (by decide) (by decide) xs ys

/-! ## Blank texts -/

/-- Blank characters belong to nothing. -/
theorem other_of_isBlank {c : Char} (h : Text.isBlank c = true) :
    c.isAlpha = false ∧ Token.isNumeric c = false ∧ ofChar? c = none := by
  have hb := h
  simp only [Text.isBlank, Bool.or_eq_true, Bool.and_eq_true, decide_eq_true_eq, beq_iff_eq] at hb
  refine ⟨?_, ?_, ?_⟩
  · by_contra ha
    simp only [Char.isAlpha, Char.isUpper, Char.isLower, ge_iff_le, UInt32.le_iff_toNat_le,
      Bool.not_eq_false, Bool.or_eq_true, Bool.and_eq_true, decide_eq_true_eq] at ha
    have : 65 ≤ c.toNat ∧ c.toNat ≤ 90 ∨ 97 ≤ c.toNat ∧ c.toNat ≤ 122 := ha
    omega
  · by_contra hn
    have := Literal.toNat_of_isNumeric (by simpa using hn)
    omega
  · unfold ofChar?
    split
    all_goals first | rfl | exact absurd h (by decide)

/-- Blanks have no lexemes. -/
theorem read_eq_nil_of_blank {s : List Char} (h : ∀ c ∈ s, Text.isBlank c = true) : read s = [] := by
  induction s with
  | nil => exact read_nil
  | cons c s ih =>
    obtain ⟨ha, hnumeric, hchar⟩ := other_of_isBlank (h c (by simp))
    rw [read_of_other ha (beginsNumber_eq_false hnumeric s), hchar, ih fun d hd => h d (by simp [hd])]
    rfl

end Lexeme

/-- The lexemes of a text. -/
def lexemes (s : String) : List Lexeme :=
  Lexeme.read s.toList

/-- A text with a lexeme is not blank. -/
theorem not_allBlank_of_lexemes_ne_nil {s : String} (h : lexemes s ≠ []) : Text.allBlank s = false := by
  by_contra hblank
  have hchars : ∀ c ∈ s.toList, Text.isBlank c = true := by
    simpa [Text.allBlank] using hblank
  exact h (Lexeme.read_eq_nil_of_blank hchars)

/-- Tokens are lexemes with the two kinds of minus told apart. -/
theorem tokenize_eq (s : String) : Token.tokenize s = Lexeme.tokenList true (lexemes s) :=
  Lexeme.scan_eq_tokenList true s.toList

end DeskCalculator
