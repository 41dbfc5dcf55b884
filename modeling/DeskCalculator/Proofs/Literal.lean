import DeskCalculator.Decimal.Layout
import DeskCalculator.Token.Lexer
import Mathlib

/-!
# Literals

A literal is what the lexer takes for a number: a run of digits and points with at least one digit in
it. Its value is absent when it has several points, and is otherwise the double nearest to the decimal
written. `Literal.read_text` shows that the general reader of numerals agrees and never refuses a
literal.
-/

namespace DeskCalculator

/-- A run of digits and points with at least one digit. -/
@[ext]
structure Literal where
  text : String
  numeric : ∀ c ∈ text.toList, Token.isNumeric c = true
  digit : ∃ c ∈ text.toList, c.isDigit = true
  deriving DecidableEq

namespace Literal

/-- The decimal written by digits with at most one point. -/
def decimal (s : List Char) : Decimal :=
  ⟨Numeral.ofDigits (s.filter Char.isDigit), -((s.dropWhile Char.isDigit).tail.length : Int)⟩

/-- The value of a literal; none if it has several points. -/
def value? (l : Literal) : Option Float :=
  if 1 < l.text.toList.count '.' then none
  else some (Binary64.ofDecimal false (decimal l.text.toList))

/-! ## Reading a literal as a numeral -/

theorem text_ne_nil (l : Literal) : l.text.toList ≠ [] := by
  obtain ⟨c, hc, -⟩ := l.digit
  exact List.ne_nil_of_mem hc

/-- The characters of literals are digits and points. -/
theorem isDigit_or_eq_point {c : Char} (h : Token.isNumeric c = true) :
    c.isDigit = true ∨ c = '.' := by
  simpa [Token.isNumeric] using h

/-- The characters of a literal lie between the point and the digit nine. -/
theorem toNat_of_isNumeric {c : Char} (h : Token.isNumeric c = true) :
    46 ≤ c.toNat ∧ c.toNat ≤ 57 := by
  rcases isDigit_or_eq_point h with h | rfl
  · have h : 48 ≤ c.toNat ∧ c.toNat ≤ 57 := by
      simpa [Char.isDigit, UInt32.le_iff_toNat_le] using h
    omega
  · decide

/-- Neither a digit nor a point is a letter. -/
theorem isAlpha_of_isNumeric {c : Char} (h : Token.isNumeric c = true) : c.isAlpha = false := by
  have hc := toNat_of_isNumeric h
  by_contra ha
  simp only [Char.isAlpha, Char.isUpper, Char.isLower, ge_iff_le, UInt32.le_iff_toNat_le,
    Bool.not_eq_false, Bool.or_eq_true, Bool.and_eq_true, decide_eq_true_eq] at ha
  have : 65 ≤ c.toNat ∧ c.toNat ≤ 90 ∨ 97 ≤ c.toNat ∧ c.toNat ≤ 122 := ha
  omega

/-- A letter is no part of a literal. -/
theorem isNumeric_of_isAlpha {c : Char} (h : c.isAlpha = true) : Token.isNumeric c = false := by
  by_contra hn
  rw [isAlpha_of_isNumeric (by simpa using hn)] at h
  cases h

/-- There is no other case of a digit or a point. -/
theorem toLower_of_isNumeric {c : Char} (h : Token.isNumeric c = true) : c.toLower = c := by
  have := toNat_of_isNumeric h
  rw [Char.toLower, dif_neg]
  rintro ⟨hlow, -⟩
  have : 65 ≤ c.toNat := by simpa [UInt32.le_iff_toNat_le] using hlow
  omega

end Literal

namespace Numeral

/-- The visible characters of ASCII but the underscore: a text of these needs no preparation. -/
def isPlainCharacter (c : Char) : Bool :=
  32 < c.toNat && c.toNat < 128 && c != '_'

/-- Digits and points are plain characters. -/
theorem isPlainCharacter_of_isNumeric {c : Char} (h : Token.isNumeric c = true) :
    isPlainCharacter c = true := by
  have hc := Literal.toNat_of_isNumeric h
  have hne : c ≠ '_' := by
    rintro rfl
    exact absurd hc (by decide)
  simp only [isPlainCharacter, Bool.and_eq_true, decide_eq_true_eq, bne_iff_ne]
  exact ⟨⟨by omega, by omega⟩, hne⟩

/-- Plain characters are ASCII already. -/
theorem toAscii_eq_self {s : List Char} (h : ∀ c ∈ s, isPlainCharacter c = true) : toAscii s = s := by
  rw [toAscii, if_pos]
  refine List.all_eq_true.2 fun c hc => ?_
  have := h c hc
  simp only [isPlainCharacter, Bool.and_eq_true, decide_eq_true_eq] at this
  exact decide_eq_true this.1.2

/-- No blank stands around plain characters. -/
theorem trim_eq_self {s : List Char} (h : ∀ c ∈ s, isPlainCharacter c = true) : trim s = s := by
  -- trimming is done from the front twice, the second time in reverse
  have keep : ∀ t : List Char, (∀ c ∈ t, isPlainCharacter c = true) → t.dropWhile isPadding = t := by
    intro t ht
    cases t with
    | nil => rfl
    | cons c t =>
      have hc := ht c (by simp)
      have hne : c ≠ ' ' := by
        rintro rfl
        cases hc
      simp only [isPlainCharacter, Bool.and_eq_true, decide_eq_true_eq] at hc
      have hpadding : isPadding c = false := by
        simp only [isPadding, hne, decide_false, Bool.false_or, Bool.and_eq_false_iff,
          decide_eq_false_iff_not]
        omega
      simp [hpadding]
  rw [trim, keep s h, keep s.reverse (by simpa using h), List.reverse_reverse]

/-- Among plain characters there are no underscores to be dropped. -/
theorem dropUnderscores_eq_some {s : List Char} (afterDigit : Bool)
    (h : ∀ c ∈ s, isPlainCharacter c = true) : dropUnderscores afterDigit s = some s := by
  induction s generalizing afterDigit with
  | nil => rfl
  | cons c s ih =>
    have hne : c ≠ '_' := by
      rintro rfl
      have := h '_' (by simp)
      cases this
    rw [dropUnderscores, ih _ fun d hd => h d (by simp [hd]), Option.map_some]
    exact hne

/-- A numeral of plain characters is read without preparation. -/
theorem parse?_eq_ofAscii? {s : List Char} (h : ∀ c ∈ s, isPlainCharacter c = true) :
    parse? s = ofAscii? s := by
  rw [parse?, toAscii_eq_self h, trim_eq_self h, dropUnderscores_eq_some false h, Option.bind_some]

/-- What begins with a digit or a point, perhaps behind a minus sign, is no name of an infinity or of
NaN. -/
theorem ofAscii?_sign_append (negative : Bool) {c : Char} (hc : Token.isNumeric c = true) (s : List Char) :
    ofAscii? (Layout.sign negative ++ c :: s) = (decimal? (c :: s)).map (finite negative) := by
  have hcode := Literal.toNat_of_isNumeric hc
  have hsign : takeSign (Layout.sign negative ++ c :: s) = (negative, c :: s) := by
    have hminus : c ≠ '-' := by rintro rfl; simp at hcode
    have hplus : c ≠ '+' := by rintro rfl; simp at hcode
    cases negative <;> simp [Layout.sign, takeSign, hminus, hplus]
  -- the names begin with an `i` or an `n`, and these come after all digits
  have hname : ∀ d name, d.toNat = 105 ∨ d.toNat = 110 → (c :: s).map Char.toLower ≠ d :: name := by
    rintro d name hd heq
    obtain rfl : c.toLower = d := (List.cons.inj heq).1
    rw [Literal.toLower_of_isNumeric hc] at hd
    omega
  simp only [ofAscii?, hsign]
  rw [if_neg, if_neg]
  · exact hname 'n' _ (by decide)
  · rintro (h | h)
    · exact hname 'i' _ (by decide) h
    · exact hname 'i' _ (by decide) h

end Numeral

namespace Literal

/-- A literal has no sign. -/
theorem ofAscii?_of_isNumeric {s : List Char} (h : ∀ c ∈ s, Token.isNumeric c = true) :
    Numeral.ofAscii? s = (Numeral.decimal? s).map (Numeral.finite false) := by
  cases s with
  | nil => rfl
  | cons c s => exact Numeral.ofAscii?_sign_append false (h c (by simp)) s

/-- What follows the leading digits is nothing, or the only point and then digits. -/
theorem dropWhile_isDigit_of_count_le {s : List Char} (h : ∀ c ∈ s, Token.isNumeric c = true)
    (hp : s.count '.' ≤ 1) :
    s.dropWhile Char.isDigit = [] ∨
      ∃ r, s.dropWhile Char.isDigit = '.' :: r ∧ ∀ c ∈ r, c.isDigit = true := by
  cases hd : s.dropWhile Char.isDigit with
  | nil => exact .inl rfl
  | cons c r =>
    have hmem : ∀ d ∈ c :: r, d ∈ s := hd ▸ (List.dropWhile_suffix _).subset
    have hc : c.isDigit = false := by
      have := List.head?_dropWhile_not Char.isDigit s
      simpa [hd] using this
    have hpoint : c = '.' :=
      (isDigit_or_eq_point (h c (hmem c (by simp)))).resolve_left (by simp [hc])
    subst hpoint
    have hcount : r.count '.' + 1 ≤ s.count '.' := by
      have := (List.dropWhile_suffix (l := s) Char.isDigit).sublist.count_le '.'
      rwa [hd, List.count_cons_self] at this
    -- this point is the only one
    have hnone : '.' ∉ r := List.count_eq_zero.1 (by omega)
    refine .inr ⟨r, rfl, fun d hr => ?_⟩
    exact (isDigit_or_eq_point (h d (hmem d (by simp [hr])))).resolve_right fun hd' =>
      hnone (hd' ▸ hr)

/-- Digits with at most one point are read as the decimal that they write. -/
theorem decimal?_of_count_le {s : List Char} (h : ∀ c ∈ s, Token.isNumeric c = true)
    (hdigit : ∃ c ∈ s, c.isDigit = true) (hp : s.count '.' ≤ 1) :
    Numeral.decimal? s = some (decimal s) := by
  have hsplit := List.takeWhile_append_dropWhile (p := Char.isDigit) (l := s)
  have hwhole : (s.takeWhile Char.isDigit).filter Char.isDigit = s.takeWhile Char.isDigit :=
    List.filter_eq_self.2 fun c hc => List.mem_takeWhile_imp hc
  rcases dropWhile_isDigit_of_count_le h hp with hrest | ⟨r, hrest, hr⟩
  · -- no point: everything is before it
    rw [hrest, List.append_nil] at hsplit
    have hne : s ≠ [] := by
      rintro rfl
      simp at hdigit
    have hfilter : s.filter Char.isDigit = s := by rwa [hsplit] at hwhole
    simp [Numeral.decimal?, Numeral.exponent?, decimal, hrest, hsplit, hfilter, hne]
  · -- one point: the digits after it are the fraction
    have htake : r.takeWhile Char.isDigit = r := List.takeWhile_eq_self_iff.2 hr
    have hdrop : r.dropWhile Char.isDigit = [] := List.dropWhile_eq_nil_iff.2 hr
    have hfilter : s.filter Char.isDigit = s.takeWhile Char.isDigit ++ r := by
      calc s.filter Char.isDigit
          = (s.takeWhile Char.isDigit ++ '.' :: r).filter Char.isDigit := by rw [← hrest, hsplit]
        _ = s.takeWhile Char.isDigit ++ r := by
          rw [List.filter_append, hwhole, List.filter_cons_of_neg (by decide),
            List.filter_eq_self.2 hr]
    have hne : ((s.takeWhile Char.isDigit).isEmpty && r.isEmpty) = false := by
      rw [Bool.and_eq_false_iff, ← Bool.not_eq_true, ← Bool.not_eq_true, List.isEmpty_iff,
        List.isEmpty_iff, ← not_and_or]
      rintro ⟨hwhole, rfl⟩
      obtain ⟨c, hc, hcd⟩ := hdigit
      rw [← hsplit, hrest, hwhole, List.nil_append, List.mem_singleton] at hc
      simp [hc] at hcd
    simp only [Numeral.decimal?, hrest, htake, hdrop, hne, Numeral.exponent?, decimal, hfilter]
    simp

/-- A literal with at most one point is read as the decimal that it writes. -/
theorem parse?_text (l : Literal) (hp : l.text.toList.count '.' ≤ 1) :
    Numeral.parse? l.text.toList = some (.finite false (decimal l.text.toList)) := by
  rw [Numeral.parse?_eq_ofAscii? fun c hc => Numeral.isPlainCharacter_of_isNumeric (l.numeric c hc),
    ofAscii?_of_isNumeric l.numeric, decimal?_of_count_le l.numeric l.digit hp, Option.map_some]

/-- The reader of numerals takes every literal and gives it its value. -/
theorem read_text (l : Literal) : Numeral.read l.text = .ok l.value? := by
  have hlone : l.text.toList ≠ ['.'] := by
    intro h
    obtain ⟨c, hc, hcd⟩ := l.digit
    rw [h, List.mem_singleton] at hc
    simp [hc] at hcd
  by_cases hp : 1 < l.text.toList.count '.'
  · simp [Numeral.read, Numeral.isMalformed, value?, hp]
  · simp [Numeral.read, Numeral.isMalformed, value?, hp, hlone, l.parse?_text (by omega),
      Numeral.value]

/-- The value of a literal is the number that its text is read as. -/
theorem read?_text (l : Literal) : Numeral.read? l.text = l.value? := by
  rw [Numeral.read?, read_text]

/-- The token of a literal carries its value. -/
theorem ofLiteral_text (l : Literal) : Token.ofLiteral l.text = .number l.text l.value? := by
  rw [Token.ofLiteral, read?_text]

end Literal

end DeskCalculator
