import DeskCalculator.Proofs.LastNumber
import DeskCalculator.Proofs.Quotient
import DeskCalculator.Proofs.ShortestDecimal
import DeskCalculator.Proofs.TrailingNumber

/-!
# What the percent key does to the tokens

The percent key finds the number at the end of the line by a search of its own, the lexer by reading from
the front. Where both find the same number, the key replaces its token by three: a parenthesis, the
double nearest to a hundredth of it, and a parenthesis.

They do not always agree. A point in front of the first digit belongs to the literal but not to the
number that the key divides, and digits of other scripts belong to that number but to no literal.
`tokenize_apply` says what happens to a literal that keeps clear of such digits, and to a line that ends in
no literal. A literal right behind a digit of another script, such as the one of `٣5`, is only the end of the
number that is divided (`EndsInLiteral` excludes it, and `tokenize_apply_of_foreign` is about it).
-/

namespace DeskCalculator

open Binary64

/-! ## The last token -/

namespace Lexeme

/-- Only a literal ends the tokens with a number: the zero of a minus is followed by the minus. -/
theorem exists_of_getLast?_tokenList {operandNext : Bool} {ls : List Lexeme} {text : String}
    {value : Option Float} (h : (tokenList operandNext ls).getLast? = some (.number text value)) :
    ∃ l, ls.getLast? = some (number l) ∧ l.text = text ∧ l.value? = value := by
  rcases List.eq_nil_or_concat ls with rfl | ⟨init, last, rfl⟩
  · simp [tokenList] at h
  · rw [List.concat_eq_append, tokenList_append, tokenList, tokenList, List.append_nil,
      List.getLast?_append] at h
    rw [List.concat_eq_append, List.getLast?_concat]
    cases last with
    | number l => exact ⟨l, rfl, by simpa [tokens] using h⟩
    | name w => simp [tokens] at h
    | sign op =>
      cases op with
      | sub => cases hb : operandAfter operandNext init <;> simp [tokens, Token.ofMinus, hb] at h
      | _ => simp [tokens] at h
    | opening => simp [tokens] at h
    | closing => simp [tokens] at h

/-- A literal at the end of a text is the last token, behind the tokens of what stands before it. -/
theorem LastNumber.tokenList_eq {s front dots : List Char} {l : Literal} (h : LastNumber s front dots l)
    (operandNext : Bool) :
    tokenList operandNext (read s) = tokenList operandNext (read front) ++ [.number l.text l.value?] := by
  rw [h.read_eq, tokenList_append]
  rfl

end Lexeme

namespace Literal

variable {l : Literal} {n : Float}

/-- A literal with a value has one point at most. -/
theorem count_le_of_value? (h : l.value? = some n) : l.text.toList.count '.' ≤ 1 := by
  by_contra hcount
  rw [value?, if_pos (not_le.1 hcount)] at h
  cases h

/-- A literal with a value is a numeral with this value. -/
theorem float?_text (h : l.value? = some n) : Numeral.float? l.text = some n := by
  have hcount := count_le_of_value? h
  rw [value?, if_neg (not_lt.2 hcount)] at h
  rw [Numeral.float?, l.parse?_text hcount, Option.map_some, Numeral.value, h]

/-- A literal that does not begin with a point is a number for the percent key. -/
theorem isNumber_text (h : l.value? = some n) (hhead : l.text.toList.head? ≠ some '.') :
    Percent.IsNumber l.text.toList := by
  have hsplit := List.takeWhile_append_dropWhile (p := Char.isDigit) (l := l.text.toList)
  have hwhole : ∀ c ∈ l.text.toList.takeWhile Char.isDigit, Text.isDigit c = true := fun c hc =>
    Text.isDigit_of_isDigit (List.mem_takeWhile_imp hc)
  rcases dropWhile_isDigit_of_count_le l.numeric (count_le_of_value? h) with hrest | ⟨r, hrest, hr⟩
  · rw [hrest, List.append_nil] at hsplit
    refine ⟨l.text.toList, [], l.text_ne_nil, ?_, .inr ⟨rfl, rfl⟩⟩
    rwa [List.append_nil, ← hsplit]
  · rw [hrest] at hsplit
    refine ⟨_, r, ?_, ?_, .inl hsplit.symm⟩
    · intro hnil
      rw [hnil, List.nil_append] at hsplit
      exact hhead (by rw [← hsplit]; rfl)
    · intro c hc
      rcases List.mem_append.1 hc with hc | hc
      · exact hwhole c hc
      · exact Text.isDigit_of_isDigit (hr c hc)

/-- Behind a point in front there are digits alone. -/
theorem digits_of_text (h : l.value? = some n) {digits : List Char}
    (htext : l.text.toList = '.' :: digits) : digits ≠ [] ∧ ∀ c ∈ digits, c.isDigit = true := by
  have hnone : '.' ∉ digits := by
    have hcount := count_le_of_value? h
    rw [htext, List.count_cons_self] at hcount
    exact List.count_eq_zero.1 (by omega)
  constructor
  · rintro rfl
    obtain ⟨c, hc, hdigit⟩ := l.digit
    obtain rfl : c = '.' := by simpa [htext] using hc
    exact Bool.false_ne_true hdigit
  · intro c hc
    have hnumeric := l.numeric c (by simp [htext, hc])
    exact (isDigit_or_eq_point hnumeric).resolve_right fun hpoint => hnone (hpoint ▸ hc)

end Literal

namespace Percent

/-! ## The line after the percent key -/

/-- A number at the end of a line leaves no final line feed to be dropped. -/
theorem withoutFinalNewline_of_isNumber {before number : List Char} (h : IsNumber number) :
    withoutFinalNewline (before ++ number) = before ++ number := by
  have hlast : (before ++ number).getLast? = number.getLast? :=
    List.getLast?_append_of_ne_nil _ h.ne_nil
  rw [withoutFinalNewline, hlast, if_neg (h.getLast?_ne (by decide +kernel) (by decide))]

/-- The new line is what stands before the number, and what replaces it. -/
theorem toList_apply {line : String} {before number : List Char}
    (h : split? line.toList = some (before, number)) :
    (apply line).toList = before ++ replacement number := by
  rw [apply, h, String.toList_ofList]

/-- The line changes exactly when a number stands at its end. -/
theorem apply_eq_self_iff (line : String) :
    apply line = line ↔ ∀ s, IsNumber s → ¬ s <:+ withoutFinalNewline line.toList := by
  rw [← split?_eq_none_iff]
  constructor
  · intro h
    by_contra hne
    obtain ⟨⟨before, number⟩, hsplit⟩ := Option.ne_none_iff_exists'.1 hne
    have hlist := toList_apply hsplit
    rw [h, replacement, ← List.append_assoc] at hlist
    -- the new line ends in a parenthesis, and no number does
    have hlast : line.toList.getLast? = some ')' := by
      rw [hlist, List.getLast?_concat]
    obtain ⟨hline, htrailing⟩ := split?_eq_some_iff.1 hsplit
    rw [withoutFinalNewline, hlast, if_neg (by decide)] at hline
    rw [hline, List.getLast?_append_of_ne_nil _ htrailing.isNumber.ne_nil] at hlast
    exact htrailing.isNumber.getLast?_ne (by decide +kernel) (by decide) hlast
  · intro h
    rw [apply, h]

/-! ## The hundredth -/

/-- A double without a sign, written in full, is one literal with its value. -/
theorem exists_read_text {x : Float} {m : Nat} {q : Int} (hx : ofFloat x = finite false m q) :
    ∃ l : Literal, Lexeme.read (Layout.plain.text x).toList = [.number l] ∧
      l.text = Layout.plain.text x ∧ l.value? = some x := by
  have htext : Layout.plain.text x = String.ofList (Layout.positionalDigits [] (.shortest m q)) := by
    simp only [Layout.text, hx, Layout.decimal]
    rw [if_pos (.inr rfl)]
    rfl
  have hwrites := writes_positionalDigits (.shortest m q)
  obtain ⟨l, hread, hvalue⟩ := hwrites.exists_literal
  obtain ⟨c, rest, hcons, hc⟩ := hwrites.exists_eq_cons
  obtain ⟨dots, k, hdots, hpoints, -, hrun⟩ :=
    Lexeme.exists_read_run hwrites.numeric ⟨c, by simp [hcons], hc⟩
  obtain rfl : k = l := by simpa using hrun.symm.trans hread
  -- the text begins with a digit, so no point is left over
  obtain rfl : dots = [] := by
    cases dots with
    | nil => rfl
    | cons d dots =>
      obtain rfl : d = c := by
        rw [hcons, List.cons_append] at hdots
        exact (List.cons.inj hdots).1.symm
      rw [hpoints d (by simp)] at hc
      exact absurd hc Bool.false_ne_true
  rw [htext, String.toList_ofList, hdots]
  refine ⟨k, hdots ▸ hread, String.ofList_toList.symm, ?_⟩
  rw [hvalue, nearest_eq hx (toRat_nonneg _) (Decimal.rounded_shortest (canonical_of_finite hx))]

/-- The tokens that the key writes for a number. -/
def hundredth (n : Float) : List Token :=
  [.leftParen, .number (Layout.plain.text (n / 100)) (some (n / 100)), .rightParen]

/-- The key replaces the last token of the line, the number `n`, by a hundredth of `m`, and leaves the
tokens before it as they are. -/
def Replaces (line text : String) (n m : Float) : Prop :=
  ∃ before, Token.tokenize line = before ++ [.number text (some n)] ∧
    Token.tokenize (apply line) = before ++ hundredth m

/-- The double of a hundred. -/
theorem ofFloat_hundred : ofFloat 100 = finite false 7036874417766400 (-46) := by
  decide +kernel

/-- The tokens of the new line are those of what stands before the number, and then the hundredth of its
value. -/
theorem tokenize_apply_of_split? {line : String} {before number : List Char} {n : Float}
    (hsplit : split? line.toList = some (before, number))
    (hvalue : Numeral.float? (String.ofList number) = some n) (hfinite : n.isFinite = true) :
    Token.tokenize (apply line) = Lexeme.tokenList true (Lexeme.read before) ++ hundredth n := by
  obtain ⟨d, hparse⟩ := (split?_eq_some_iff.1 hsplit).2.isNumber.exists_parse?
  have hn : n = nearest false d.toRat := by
    rw [Numeral.float?, String.toList_ofList, hparse] at hvalue
    rw [← ofDecimal_eq_nearest]
    exact (Option.some.inj hvalue).symm
  obtain ⟨m, q, hm⟩ := exists_ofFloat_nearest (hn ▸ hfinite)
  rw [← hn] at hm
  have hq := (canonical_of_finite hm).le_highest
  obtain ⟨k, p, hk⟩ := exists_ofFloat_div hm ofFloat_hundred (by decide) (by omega)
  obtain ⟨l, hread, htext, hl⟩ := exists_read_text hk
  have hreplacement : replacement number = '(' :: ((Layout.plain.text (n / 100)).toList ++ [')']) := by
    rw [replacement, hparse, List.cons_append, hn, ← ofDecimal_eq_nearest]
    rfl
  rw [tokenize_eq, lexemes, toList_apply hsplit, hreplacement,
    Lexeme.read_parenthesis (.inl ⟨rfl, rfl⟩), Lexeme.read_parenthesis (.inr ⟨rfl, rfl⟩), hread,
    Lexeme.read_nil, Lexeme.tokenList_append, hundredth, ← hl, ← htext]
  rfl

/-! ## Lines that end in a literal -/

/-- The last character of a suffix is the last one of the text. -/
theorem getLast_mem_getLast? {t l : List Char} (h : t <:+ l) (hne : t ≠ []) :
    t.getLast hne ∈ l.getLast? := by
  obtain ⟨u, rfl⟩ := h
  rw [List.getLast?_append_of_ne_nil _ hne, List.getLast?_eq_some_getLast hne]
  rfl

/-- The last token is a literal with a value, it reaches to the end of the line, and no digit of any
script stands right before it. -/
structure EndsInLiteral (line : String) (pre : List Char) (text : String) (n : Float) : Prop where
  last : (Token.tokenize line).getLast? = some (.number text (some n))
  text_eq : line.toList = pre ++ text.toList
  apart : ∀ c ∈ pre.getLast?, Text.isDigit c = false

namespace EndsInLiteral

variable {line : String} {pre : List Char} {text : String} {n : Float}

/-- A line that ends in a literal is cut in front of the literal's own run. -/
theorem exists_lastNumber (h : EndsInLiteral line pre text n) :
    ∃ front dots l, l.text = text ∧ l.value? = some n ∧ pre = front ++ dots ∧
      Lexeme.LastNumber line.toList front dots l := by
  have hlast := h.last
  rw [tokenize_eq] at hlast
  obtain ⟨l, hl, rfl, hvalue⟩ := Lexeme.exists_of_getLast?_tokenList hlast
  obtain ⟨front, dots, hcut⟩ := Lexeme.exists_lastNumber_of_suffix ⟨pre, h.text_eq.symm⟩ hl
  refine ⟨front, dots, l, rfl, hvalue, ?_, hcut⟩
  have heq := h.text_eq.symm.trans hcut.text_eq
  rw [← List.append_assoc] at heq
  exact List.append_cancel_right heq

/-- A number that begins with a digit is replaced by its hundredth. -/
theorem tokenize_apply_of_digit (h : EndsInLiteral line pre text n) (hfinite : n.isFinite = true)
    (hhead : text.toList.head? ≠ some '.') : Replaces line text n n := by
  obtain ⟨front, dots, l, rfl, hvalue, hpre, hcut⟩ := h.exists_lastNumber
  obtain rfl := hcut.dots_eq_nil hhead
  obtain rfl : pre = front := by rw [hpre, List.append_nil]
  have hnumber := Literal.isNumber_text hvalue hhead
  -- a longer number would go on into a digit, which is excluded, or into a point of the literal's own run
  have htrailing : IsTrailing l.text.toList (pre ++ l.text.toList) := by
    refine isTrailing_append hnumber ?_
    intro t hne hsuffix hlonger
    have hlast := getLast_mem_getLast? hsuffix hne
    rcases hlonger.isDigit_or_eq_point (List.mem_append_left _ (List.getLast_mem hne)) with hc | hc
    · rw [h.apart _ hlast] at hc
      exact Bool.false_ne_true hc
    · have hnumeric := hcut.front_end _ hlast
      rw [hc] at hnumeric
      exact Bool.false_ne_true hnumeric.symm
  have hsplit : split? line.toList = some (pre, l.text.toList) := by
    rw [split?_eq_some_iff, h.text_eq, withoutFinalNewline_of_isNumber hnumber]
    exact ⟨rfl, htrailing⟩
  refine ⟨Lexeme.tokenList true (Lexeme.read pre), ?_, ?_⟩
  · rw [tokenize_eq, lexemes, hcut.tokenList_eq, hvalue]
  · refine tokenize_apply_of_split? hsplit ?_ hfinite
    rw [String.ofList_toList]
    exact Literal.float?_text hvalue

/-- Of a number that begins with a point, what is divided is the number that the digits behind the point
write. -/
theorem tokenize_apply_of_point (h : EndsInLiteral line pre text n) {digits : List Char} {m : Float}
    (htext : text.toList = '.' :: digits) (hvalue : Numeral.float? (String.ofList digits) = some m)
    (hfinite : m.isFinite = true) : Replaces line text n m := by
  obtain ⟨front, dots, l, rfl, hn, rfl, hcut⟩ := h.exists_lastNumber
  obtain ⟨hne, hdigits⟩ := Literal.digits_of_text hn htext
  have hnumber : IsNumber digits := by
    refine ⟨digits, [], hne, ?_, .inr ⟨rfl, rfl⟩⟩
    rw [List.append_nil]
    exact fun c hc => Text.isDigit_of_isDigit (hdigits c hc)
  have hline : line.toList = (front ++ dots ++ ['.']) ++ digits := by
    rw [h.text_eq, htext]
    simp
  -- the point could only belong to a number with a digit before it
  have htrailing : IsTrailing digits ((front ++ dots ++ ['.']) ++ digits) := by
    refine isTrailing_append hnumber ?_
    intro t ht hsuffix hlonger
    obtain ⟨u, rfl, hu⟩ := (List.suffix_concat_iff.1 hsuffix).resolve_left ht
    rw [List.append_assoc, List.singleton_append] at hlonger
    obtain ⟨hne, hdigit⟩ := hlonger.digits_before_point
    have hapart := h.apart _ (getLast_mem_getLast? hu hne)
    rw [hdigit _ (List.getLast_mem hne)] at hapart
    exact Bool.false_ne_true hapart.symm
  have hsplit : split? line.toList = some (front ++ dots ++ ['.'], digits) := by
    rw [split?_eq_some_iff, hline, withoutFinalNewline_of_isNumber hnumber]
    exact ⟨rfl, htrailing⟩
  refine ⟨Lexeme.tokenList true (Lexeme.read front), ?_, ?_⟩
  · rw [tokenize_eq, lexemes, hcut.tokenList_eq, hn]
  · rw [tokenize_apply_of_split? hsplit hvalue hfinite, List.append_assoc, hcut.read_front_append]
    intro c hc
    rcases List.mem_append.1 hc with hc | hc
    · exact hcut.points c hc
    · exact List.mem_singleton.1 hc

end EndsInLiteral

/-! ## Literals behind digits of other scripts -/

/-- Behind a digit of any script a literal goes on as the same number. -/
theorem isNumber_cons_text {l : Literal} {n : Float} (h : l.value? = some n) {c : Char}
    (hc : Text.isDigit c = true) : IsNumber (c :: l.text.toList) := by
  by_cases hhead : l.text.toList.head? = some '.'
  · obtain ⟨digits, htext⟩ := List.head?_eq_some_iff.1 hhead
    refine ⟨[c], digits, by simp, ?_, .inl (by rw [htext, List.singleton_append])⟩
    rw [List.singleton_append, List.forall_mem_cons]
    exact ⟨hc, fun d hd => Text.isDigit_of_isDigit ((Literal.digits_of_text h htext).2 d hd)⟩
  · obtain ⟨whole, fraction, -, hdigit, hs⟩ := Literal.isNumber_text h hhead
    refine ⟨c :: whole, fraction, by simp, List.forall_mem_cons.2 ⟨hc, hdigit⟩, ?_⟩
    exact hs.imp (congrArg (c :: ·)) (And.imp_left (congrArg (c :: ·)))

/-- Right behind a digit of another script a literal is the end of a longer number. The key divides that
number, and leaves the tokens of what stands before it as they are. -/
theorem tokenize_apply_of_foreign {line text : String} {pre : List Char} {n : Float} {c : Char}
    (hlast : (Token.tokenize line).getLast? = some (.number text (some n)))
    (htext : line.toList = pre ++ text.toList) (hc : c ∈ pre.getLast?) (hdigit : Text.isDigit c = true) :
    ∃ before more m, more ≠ [] ∧ pre = before ++ more ∧
      Numeral.float? (String.ofList (more ++ text.toList)) = some m ∧
      (m.isFinite = true →
        Token.tokenize (apply line) = Lexeme.tokenList true (Lexeme.read before) ++ hundredth m) := by
  rw [tokenize_eq] at hlast
  obtain ⟨l, -, rfl, hvalue⟩ := Lexeme.exists_of_getLast?_tokenList hlast
  have hnumber := isNumber_cons_text hvalue hdigit
  obtain ⟨init, rfl⟩ := List.getLast?_eq_some_iff.1 hc
  have hline : line.toList = init ++ (c :: l.text.toList) := by rw [htext, List.append_assoc]; rfl
  have hsuffix : (c :: l.text.toList) <:+ withoutFinalNewline line.toList := by
    rw [hline, withoutFinalNewline_of_isNumber hnumber]
    exact List.suffix_append _ _
  have hsome : split? line.toList ≠ none := fun hnone => split?_eq_none_iff.1 hnone _ hnumber hsuffix
  obtain ⟨⟨before, number⟩, hsplit⟩ := Option.ne_none_iff_exists'.1 hsome
  obtain ⟨hcut, htrailing⟩ := split?_eq_some_iff.1 hsplit
  -- the number reaches back at least to the digit of the other script
  obtain ⟨more, rfl⟩ := htrailing.longest _ hnumber hsuffix
  obtain ⟨d, hparse⟩ := htrailing.isNumber.exists_parse?
  obtain ⟨m, hm⟩ : ∃ m, Numeral.float? (String.ofList (more ++ c :: l.text.toList)) = some m :=
    ⟨_, by rw [Numeral.float?, String.toList_ofList, hparse]; rfl⟩
  refine ⟨before, more ++ [c], m, by simp, ?_, by rw [← List.append_cons, hm],
    tokenize_apply_of_split? hsplit hm⟩
  rw [hline, withoutFinalNewline_of_isNumber hnumber, ← List.append_assoc] at hcut
  rw [← List.append_assoc, List.append_cancel_right hcut]

example : apply "2+٣5" = "2+(0.35)" := by
  decide +kernel

/-! ## Lines that end in no literal -/

/-- The text ends in a digit of another script, or in such a digit and a point. -/
def EndsInForeignDigit (s : List Char) : Prop :=
  ∃ c, Text.isDigit c = true ∧ c.isDigit = false ∧ ([c] <:+ s ∨ [c, '.'] <:+ s)

/-- A line feed leaves no lexeme. -/
theorem read_withoutFinalNewline (s : List Char) :
    Lexeme.read (withoutFinalNewline s) = Lexeme.read s := by
  rw [withoutFinalNewline]
  split
  next hlast =>
    obtain ⟨init, rfl⟩ := List.getLast?_eq_some_iff.1 hlast
    have hfeed : Lexeme.ofChar? '\n' = none := rfl
    rw [List.dropLast_concat, Lexeme.read_append_cons (by decide) (by decide), hfeed, Lexeme.read_nil]
    exact (List.append_nil _).symm
  next => rfl

/-- A line whose last token is no number stays as it is, unless a digit of another script stands at its
end. -/
theorem apply_eq_self_iff_of_last {line : String}
    (h : ∀ text value, (Token.tokenize line).getLast? ≠ some (.number text value)) :
    apply line = line ↔ ¬ EndsInForeignDigit (withoutFinalNewline line.toList) := by
  rw [apply_eq_self_iff]
  constructor
  · rintro hnone ⟨c, hc, -, hsuffix | hsuffix⟩
    · exact hnone [c] ⟨[c], [], by simp, by simpa using hc, .inr ⟨rfl, rfl⟩⟩ hsuffix
    · exact hnone [c, '.'] ⟨[c], [], by simp, by simpa using hc, .inl rfl⟩ hsuffix
  · intro hforeign s hs hsuffix
    obtain ⟨c, hc, hend⟩ := hs.exists_end
    have hend : [c] <:+ withoutFinalNewline line.toList ∨ [c, '.'] <:+ withoutFinalNewline line.toList :=
      hend.imp (·.trans hsuffix) (·.trans hsuffix)
    cases hascii : c.isDigit with
    | false => exact hforeign ⟨c, hc, hascii, hend⟩
    | true =>
      -- a digit of ASCII would be part of a literal at the end
      have hnumeric : Token.isNumeric c = true := by simp [Token.isNumeric, hascii]
      obtain ⟨front, dots, l, hcut⟩ : ∃ front dots l,
          Lexeme.LastNumber (withoutFinalNewline line.toList) front dots l := by
        rcases hend with hend | hend
        · exact Lexeme.exists_lastNumber hend (by simpa using hnumeric) ⟨c, by simp, hascii⟩
        · exact Lexeme.exists_lastNumber hend (by simpa using ⟨hnumeric, rfl⟩) ⟨c, by simp, hascii⟩
      refine h l.text l.value? ?_
      rw [tokenize_eq, lexemes, ← read_withoutFinalNewline, hcut.tokenList_eq, List.getLast?_concat]

/-! ## The key and the lexer -/

/-- A literal at the end of the line is replaced by its hundredth if it begins with a digit. If it begins
with a point, the point stays in front and the number behind it is divided. A line whose last token is no
number stays as it is, except that a digit of another script at its end is divided as well. -/
theorem tokenize_apply (line : String) :
    (∀ pre text n, EndsInLiteral line pre text n → n.isFinite = true → text.toList.head? ≠ some '.' →
      Replaces line text n n) ∧
    (∀ pre text n digits m, EndsInLiteral line pre text n → text.toList = '.' :: digits →
      Numeral.float? (String.ofList digits) = some m → m.isFinite = true → Replaces line text n m) ∧
    ((∀ text value, (Token.tokenize line).getLast? ≠ some (.number text value)) →
      (apply line = line ↔ ¬ EndsInForeignDigit (withoutFinalNewline line.toList))) := by
  refine ⟨?_, ?_, ?_⟩
  · intro pre text n h hfinite hhead
    exact h.tokenize_apply_of_digit hfinite hhead
  · intro pre text n digits m h htext hvalue hfinite
    exact h.tokenize_apply_of_point htext hvalue hfinite
  · intro h
    exact apply_eq_self_iff_of_last h

/-- The three cases: a literal that ends in a point, one that begins with a point, and a foreign digit. -/
theorem tokenize_apply_at_points :
    Replaces "3*5." "5." 5 5 ∧ Replaces "3*.5" ".5" 0.5 5 ∧ apply "3*٣" ≠ "3*٣" := by
  have hstar : ∀ c ∈ ['3', '*'].getLast?, Text.isDigit c = false := by
    rintro c ⟨⟩
    decide +kernel
  have hfive : EndsInLiteral "3*5." ['3', '*'] "5." 5 := ⟨by decide +kernel, by decide +kernel, hstar⟩
  have hpoint : EndsInLiteral "3*.5" ['3', '*'] ".5" 0.5 := ⟨by decide +kernel, by decide +kernel, hstar⟩
  have hlast : (Token.tokenize "3*٣").getLast? = some (.operator (.binary .mul)) := by decide +kernel
  have hforeign : EndsInForeignDigit (withoutFinalNewline "3*٣".toList) :=
    ⟨'٣', by decide +kernel, by decide +kernel, .inl ⟨['3', '*'], by decide +kernel⟩⟩
  refine ⟨(tokenize_apply _).1 _ _ _ hfive (by decide +kernel) (by decide +kernel),
    (tokenize_apply _).2.1 _ _ _ ['5'] _ hpoint (by decide +kernel) (by decide +kernel)
      (by decide +kernel), ?_⟩
  intro hsame
  refine ((tokenize_apply "3*٣").2.2 ?_).1 hsame hforeign
  intro text value
  rw [hlast]
  simp

/-- The key and the lexer disagree: what replaces `.5` is not the hundredth of one half, and the line `2+٣`
changes although its last token is an operator. -/
theorem apply_point_five_and_foreign_three :
    Token.tokenize ".5" = [.number ".5" (some 0.5)] ∧ (0.5 : Float).isFinite = true ∧
      (∀ written, Token.tokenize (apply ".5") ≠
        [.leftParen, .number written (some (0.5 / 100)), .rightParen]) ∧
      (Token.tokenize "2+٣").getLast? = some (.operator (.binary .add)) ∧ apply "2+٣" ≠ "2+٣" := by
  refine ⟨by decide +kernel, by decide +kernel, ?_, by decide +kernel, by decide +kernel⟩
  intro written hsame
  have hcode : Token.tokenize (apply ".5") = [.leftParen, .number "0.05" (some 0.05), .rightParen] := by
    decide +kernel
  rw [hcode] at hsame
  have hvalue : some (0.05 : Float) = some (0.5 / 100) := by
    injection hsame with _ hsame
    injection hsame with hsame _
    injection hsame
  exact absurd hvalue (by decide +kernel)

end Percent

end DeskCalculator
