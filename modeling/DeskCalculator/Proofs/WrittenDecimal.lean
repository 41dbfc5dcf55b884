import DeskCalculator.Proofs.Lexeme
import DeskCalculator.Proofs.Nearest
import DeskCalculator.Decimal.Layout

/-!
# Written decimals

`Writes s x` says that the characters `s`, digits with at most one point among them and not in front,
write the number `x`. The layouts of the calculator write what they are given: `writes_toDigits` and
`writes_positionalDigits`. What writes a number is one lexeme, a literal worth the double nearest to the
number.
-/

namespace DeskCalculator

/-- Whether digits, and perhaps a point and more digits, write the number. -/
def Writes (s : List Char) (x : Rat) : Prop :=
  ∃ whole fraction : List Char, whole ≠ [] ∧ (∀ c ∈ whole ++ fraction, c.isDigit = true) ∧
    (s = whole ++ '.' :: fraction ∨ s = whole ∧ fraction = []) ∧
    x = Numeral.ofDigits (whole ++ fraction) / 10 ^ fraction.length

/-! ## Numerals of natural numbers -/

namespace Numeral

/-- The digits in front count by the power of ten of the others. -/
theorem ofDigits_append (s t : List Char) :
    ofDigits (s ++ t) = ofDigits s * 10 ^ t.length + ofDigits t := by
  have := Nat.ofDigitChars_append (b := 10) (l := s) (m := t) 0
  rw [Nat.ofDigitChars_eq_ofDigitChars_zero (l := t)] at this
  rw [mul_comm]
  exact this

theorem ofDigits_replicate (n : Nat) : ofDigits (List.replicate n '0') = 0 :=
  Nat.ofDigitChars_replicate_zero.trans (Nat.mul_zero _)

/-- The digits of a number write the number. -/
theorem ofDigits_toDigits (n : Nat) : ofDigits (Nat.toDigits 10 n) = n :=
  Nat.ofDigitChars_ten_toDigits

end Numeral

theorem isDigit_of_mem_toDigits {n : Nat} {c : Char} (h : c ∈ Nat.toDigits 10 n) : c.isDigit = true :=
  Nat.isDigit_of_mem_toDigits (by decide) (by decide) h

/-- The digits of a number, without a point, write it. -/
theorem writes_toDigits (n : Nat) : Writes (Nat.toDigits 10 n) n := by
  refine ⟨Nat.toDigits 10 n, [], Nat.toDigits_ne_nil, ?_, .inr ⟨rfl, rfl⟩, ?_⟩
  · rw [List.append_nil]
    exact fun c => isDigit_of_mem_toDigits
  · rw [List.append_nil, Numeral.ofDigits_toDigits]
    simp

/-! ## Decimals written out -/

namespace Decimal

/-- The digits are the significant ones and then zeros. -/
theorem exists_digits_eq (d : Decimal) :
    ∃ k, d.digits = d.significant ++ List.replicate k '0' := by
  refine ⟨(d.digits.reverse.takeWhile (· = '0')).length, ?_⟩
  have hzeros : d.digits.reverse.takeWhile (· = '0') =
      List.replicate (d.digits.reverse.takeWhile (· = '0')).length '0' :=
    List.eq_replicate_iff.2 ⟨rfl, fun c hc => by simpa using List.mem_takeWhile_imp hc⟩
  have hsplit := List.takeWhile_append_dropWhile (p := (· = '0')) (l := d.digits.reverse)
  rw [significant, ← List.reverse_replicate, ← hzeros, ← List.reverse_append, hsplit,
    List.reverse_reverse]

/-- The value in terms of the significant digits and the place of the point. -/
theorem toRat_eq_significant (d : Decimal) :
    d.toRat = Numeral.ofDigits d.significant * (10 : Rat) ^ (d.point - d.significant.length) := by
  obtain ⟨k, hk⟩ := d.exists_digits_eq
  have hvalue : d.coefficient = Numeral.ofDigits d.significant * 10 ^ k := by
    have := Numeral.ofDigits_toDigits d.coefficient
    rw [← digits, hk, Numeral.ofDigits_append, Numeral.ofDigits_replicate, List.length_replicate,
      add_zero] at this
    exact this.symm
  have hpoint : d.point - d.significant.length = k + d.exponent := by
    rw [point, hk, List.length_append, List.length_replicate]
    push_cast
    ring
  rw [toRat, hvalue, hpoint, zpow_add₀ (by norm_num)]
  push_cast
  rw [zpow_natCast]
  ring

/-- Significant digits are digits. -/
theorem isDigit_of_mem_significant {d : Decimal} {c : Char} (h : c ∈ d.significant) :
    c.isDigit = true := by
  obtain ⟨k, hk⟩ := d.exists_digits_eq
  have hmem : c ∈ d.digits := by
    rw [hk]
    exact List.mem_append_left _ h
  exact isDigit_of_mem_toDigits hmem

end Decimal

theorem isDigit_of_mem_replicate {n : Nat} {c : Char} (h : c ∈ List.replicate n '0') :
    c.isDigit = true := by
  rw [List.eq_of_mem_replicate h]
  rfl

/-- Dividing by a power of ten moves the point. -/
theorem div_ten_pow (x : Rat) (n : Nat) : x / 10 ^ n = x * 10 ^ (-(n : Int)) := by
  rw [div_eq_mul_inv, zpow_neg, zpow_natCast]

namespace Decimal

variable (d : Decimal)

/-- All digits stand behind the point, after as many zeros as it is to the left of them. -/
theorem writes_behind_point (h : d.point ≤ 0) :
    Writes ('0' :: '.' :: (List.replicate (-d.point).toNat '0' ++ d.significant)) d.toRat := by
  refine ⟨['0'], List.replicate (-d.point).toNat '0' ++ d.significant, by simp, ?_, .inl rfl, ?_⟩
  · simp only [List.mem_append, List.mem_singleton]
    rintro c (rfl | hc | hc)
    · rfl
    · exact isDigit_of_mem_replicate hc
    · exact isDigit_of_mem_significant hc
  · have hvalue : Numeral.ofDigits (['0'] ++ (List.replicate (-d.point).toNat '0' ++ d.significant)) =
        Numeral.ofDigits d.significant := by
      rw [Numeral.ofDigits_append, Numeral.ofDigits_append, Numeral.ofDigits_replicate]
      simp [Numeral.ofDigits]
    rw [hvalue, toRat_eq_significant, div_ten_pow, List.length_append, List.length_replicate]
    congr 2
    omega

/-- No digit stands behind the point. -/
theorem writes_before_point (hne : d.significant ≠ []) (hpoint : 0 < d.point)
    (h : d.significant.length ≤ d.point.toNat) :
    Writes (d.significant ++ List.replicate (d.point.toNat - d.significant.length) '0') d.toRat := by
  refine ⟨_, [], by simp [hne], ?_, .inr ⟨rfl, rfl⟩, ?_⟩
  · simp only [List.append_nil, List.mem_append]
    rintro c (hc | hc)
    · exact isDigit_of_mem_significant hc
    · exact isDigit_of_mem_replicate hc
  · have hexp : d.point - d.significant.length =
        ((d.point.toNat - d.significant.length : Nat) : Int) := by omega
    rw [toRat_eq_significant, hexp, zpow_natCast, List.append_nil, Numeral.ofDigits_append,
      Numeral.ofDigits_replicate, List.length_replicate]
    simp

/-- The point stands between two digits. -/
theorem writes_around_point (hpoint : 0 < d.point) (h : d.point.toNat < d.significant.length) :
    Writes (d.significant.take d.point.toNat ++ '.' :: d.significant.drop d.point.toNat) d.toRat := by
  refine ⟨_, _, ?_, ?_, .inl rfl, ?_⟩
  · rw [← List.length_pos_iff, List.length_take]
    omega
  · rw [List.take_append_drop]
    exact fun c => isDigit_of_mem_significant
  · rw [List.take_append_drop, toRat_eq_significant, div_ten_pow, List.length_drop]
    congr 2
    omega

end Decimal

/-- A decimal written out in full writes its value. -/
theorem writes_positionalDigits (d : Decimal) : Writes (Layout.positionalDigits [] d) d.toRat := by
  simp only [Layout.positionalDigits]
  split
  next hnil =>
    refine ⟨['0'], [], by simp, by simp, .inr ⟨rfl, rfl⟩, ?_⟩
    rw [Decimal.toRat_eq_significant, hnil]
    simp [Numeral.ofDigits]
  next hne =>
    split
    next hpoint => exact d.writes_behind_point hpoint
    next hpoint =>
      split
      next hlength =>
        rw [List.append_nil]
        exact d.writes_before_point hne (not_le.1 hpoint) hlength
      next hlength => exact d.writes_around_point (not_le.1 hpoint) (not_le.1 hlength)

/-! ## Written decimals as literals -/

namespace Writes

variable {s : List Char} {x : Rat}

/-- What writes a number is digits and points. -/
theorem numeric (h : Writes s x) : ∀ c ∈ s, Token.isNumeric c = true := by
  obtain ⟨whole, fraction, -, hdigit, hs, -⟩ := h
  have hdigit : ∀ c ∈ whole ++ fraction, Token.isNumeric c = true := fun c hc => by
    simp [Token.isNumeric, hdigit c hc]
  intro c hc
  rcases hs with rfl | ⟨rfl, rfl⟩
  · rw [List.mem_append, List.mem_cons] at hc
    rcases hc with hc | rfl | hc
    · exact hdigit c (List.mem_append_left _ hc)
    · rfl
    · exact hdigit c (List.mem_append_right _ hc)
  · exact hdigit c (by simpa using hc)

/-- The first character is a digit. -/
theorem exists_eq_cons (h : Writes s x) : ∃ c rest, s = c :: rest ∧ c.isDigit = true := by
  obtain ⟨whole, fraction, hne, hdigit, hs, -⟩ := h
  obtain ⟨c, whole, rfl⟩ := List.exists_cons_of_ne_nil hne
  have hc : c.isDigit = true := hdigit c (by simp)
  rcases hs with rfl | ⟨rfl, -⟩
  · exact ⟨c, _, rfl, hc⟩
  · exact ⟨c, _, rfl, hc⟩

/-- What writes a number has one point at most. -/
theorem count_le (h : Writes s x) : s.count '.' ≤ 1 := by
  obtain ⟨whole, fraction, -, hdigit, hs, -⟩ := h
  have hnone : ∀ t : List Char, (∀ c ∈ t, c ∈ whole ++ fraction) → t.count '.' = 0 := fun t ht =>
    List.count_eq_zero.2 fun hmem => by
      have := hdigit '.' (ht '.' hmem)
      simp at this
  rcases hs with rfl | ⟨rfl, -⟩
  · rw [List.count_append, List.count_cons_self, hnone whole fun c hc => List.mem_append_left _ hc,
      hnone fraction fun c hc => List.mem_append_right _ hc]
  · rw [hnone s fun c hc => List.mem_append_left _ hc]
    exact Nat.zero_le 1

/-- What is written is not negative. -/
theorem nonneg (h : Writes s x) : 0 ≤ x := by
  obtain ⟨whole, fraction, -, -, -, rfl⟩ := h
  positivity

/-- The decimal of a literal is the number that it writes. -/
theorem toRat_decimal (h : Writes s x) : (Literal.decimal s).toRat = x := by
  obtain ⟨whole, fraction, -, hdigit, hs, rfl⟩ := h
  have hwhole : ∀ c ∈ whole, c.isDigit = true := fun c hc => hdigit c (List.mem_append_left _ hc)
  have hfraction : ∀ c ∈ fraction, c.isDigit = true := fun c hc => hdigit c (List.mem_append_right _ hc)
  rcases hs with rfl | ⟨rfl, rfl⟩
  · have hfilter : (whole ++ '.' :: fraction).filter Char.isDigit = whole ++ fraction := by
      rw [List.filter_append, List.filter_eq_self.2 hwhole, List.filter_cons_of_neg (by decide),
        List.filter_eq_self.2 hfraction]
    have hdrop : (whole ++ '.' :: fraction).dropWhile Char.isDigit = '.' :: fraction := by
      rw [List.dropWhile_append_of_pos hwhole]
      rfl
    rw [Literal.decimal, hfilter, hdrop, Decimal.toRat, zpow_neg, div_eq_mul_inv]
    rfl
  · have hdrop : s.dropWhile Char.isDigit = [] := List.dropWhile_eq_nil_iff.2 hwhole
    rw [Literal.decimal, List.filter_eq_self.2 hwhole, hdrop, Decimal.toRat]
    simp

/-- A literal that writes a number is worth the double nearest to it. -/
theorem value?_eq {l : Literal} (h : Writes l.text.toList x) :
    l.value? = some (Binary64.nearest false x) := by
  rw [Literal.value?, if_neg (by have := h.count_le; omega), Binary64.ofDecimal_eq_nearest,
    h.toRat_decimal]

/-- What writes a number is one literal, worth the double nearest to the number. -/
theorem exists_literal (h : Writes s x) :
    ∃ l : Literal, Lexeme.read s = [.number l] ∧ l.value? = some (Binary64.nearest false x) := by
  obtain ⟨c, rest, rfl, hc⟩ := h.exists_eq_cons
  have hbegins : Token.beginsNumber c rest = true := by simp [Token.beginsNumber, hc]
  have hrest : ∀ d ∈ rest, Token.isNumeric d = true := fun d hd => h.numeric d (by simp [hd])
  have htake : rest.takeWhile Token.isNumeric = rest := List.takeWhile_eq_self_iff.2 hrest
  have hdrop : rest.dropWhile Token.isNumeric = [] := List.dropWhile_eq_nil_iff.2 hrest
  refine ⟨.ofRun c rest hbegins, ?_, ?_⟩
  · rw [Lexeme.read_of_beginsNumber hbegins, hdrop, Lexeme.read_nil]
  · refine value?_eq ?_
    rwa [Literal.text_ofRun, htake, String.toList_ofList]

end Writes

end DeskCalculator
