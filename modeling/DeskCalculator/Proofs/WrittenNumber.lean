import DeskCalculator.Proofs.WrittenDecimal

/-!
# The number that a text writes

Reading a text as a double takes the text apart into a sign and a decimal first and rounds then.
`Numeral.written?` stops before the rounding: it is the exact number that the text stands for. Texts of the
two layouts, with and without an exponent, are read as what they were written for
(`Writes.written?_sign_append` and `Decimal.written?_exponentForm`).
-/

namespace DeskCalculator

/-- A size with a sign. -/
def withSign (negative : Bool) (x : Rat) : Rat :=
  if negative then -x else x

/-- A number with a sign is zero only if the number is. -/
theorem withSign_ne_zero_iff {negative : Bool} {x : Rat} : withSign negative x ≠ 0 ↔ x ≠ 0 := by
  cases negative <;> simp [withSign]

/-- The sign of zero does not matter. -/
theorem withSign_and_ne_zero (negative : Bool) (x : Rat) :
    withSign (negative && decide (x ≠ 0)) x = withSign negative x := by
  by_cases hx : x = 0 <;> simp [withSign, hx]

namespace Numeral

/-- The number that a numeral stands for; none for infinities and NaN. -/
def toRat? : Numeral → Option Rat
  | finite negative d => some (withSign negative d.toRat)
  | _ => none

/-- The number that a text writes. -/
def written? (text : String) : Option Rat :=
  (parse? text.toList).bind toRat?

/-- What a text stands for is the decimal that it is read as, with its sign. -/
theorem written?_of_parse? {s : List Char} {negative : Bool} {d : Decimal}
    (h : parse? s = some (finite negative d)) :
    written? (String.ofList s) = some (withSign negative d.toRat) := by
  rw [written?, String.toList_ofList, h]
  rfl

/-- The double that is read is the one nearest to the number that is written. -/
theorem float?_of_parse? {s : List Char} {negative : Bool} {d : Decimal}
    (h : parse? s = some (finite negative d)) :
    float? (String.ofList s) = some (Binary64.nearest negative d.toRat) := by
  rw [float?, String.toList_ofList, h, Option.map_some, value, Binary64.ofDecimal_eq_nearest]

/-! ## The sign -/

/-- A sign in front of a numeral is read as the sign of its decimal. -/
theorem parse?_sign_append (negative : Bool) {c : Char} {s : List Char} (hc : Token.isNumeric c = true)
    (hs : ∀ d ∈ s, isPlainCharacter d = true) :
    parse? (Layout.sign negative ++ c :: s) = (decimal? (c :: s)).map (finite negative) := by
  rw [parse?_eq_ofAscii?, ofAscii?_sign_append negative hc]
  simp only [List.mem_append, List.mem_cons]
  rintro d (hd | rfl | hd)
  · have : d = '-' := by cases negative <;> simp_all [Layout.sign]
    rw [this]
    rfl
  · exact isPlainCharacter_of_isNumeric hc
  · exact hs d hd

end Numeral

namespace Writes

variable {s : List Char} {x : Rat}

/-- A written number behind its sign is read as a decimal of this value. -/
theorem exists_parse?_sign_append (h : Writes s x) (negative : Bool) :
    ∃ d : Decimal, Numeral.parse? (Layout.sign negative ++ s) = some (.finite negative d) ∧
      d.toRat = x := by
  obtain ⟨c, rest, rfl, hc⟩ := h.exists_eq_cons
  refine ⟨_, ?_, h.toRat_decimal⟩
  rw [Numeral.parse?_sign_append negative (h.numeric c (by simp)),
    Literal.decimal?_of_count_le h.numeric ⟨c, by simp, hc⟩ h.count_le, Option.map_some]
  exact fun d hd => Numeral.isPlainCharacter_of_isNumeric (h.numeric d (by simp [hd]))

/-- What writes a number, with a sign in front, stands for the number with the sign. -/
theorem written?_sign_append (h : Writes s x) (negative : Bool) :
    Numeral.written? (String.ofList (Layout.sign negative ++ s)) = some (withSign negative x) := by
  obtain ⟨d, hd, rfl⟩ := h.exists_parse?_sign_append negative
  exact Numeral.written?_of_parse? hd

/-- What writes a number, with a sign in front, has the double nearest to the number with the sign. -/
theorem float?_sign_append (h : Writes s x) (negative : Bool) :
    Numeral.float? (String.ofList (Layout.sign negative ++ s)) = some (Binary64.nearest negative x) := by
  obtain ⟨d, hd, rfl⟩ := h.exists_parse?_sign_append negative
  exact Numeral.float?_of_parse? hd

end Writes

/-! ## Exponents -/

namespace Layout

/-- An exponent is written with its sign and no zeros in front. -/
theorem exponentPart_one (e : Int) :
    exponentPart 1 e = 'e' :: (if e < 0 then '-' else '+') :: Nat.toDigits 10 e.natAbs := by
  have hlength : 1 ≤ (Nat.toDigits 10 e.natAbs).length := Nat.length_toDigits_pos
  simp [exponentPart, Nat.sub_eq_zero_of_le hlength]

end Layout

namespace Numeral

/-- A written exponent is read as itself. -/
theorem exponent?_exponentPart (e : Int) : exponent? (Layout.exponentPart 1 e) = some e := by
  have hdigits : (Nat.toDigits 10 e.natAbs).all Char.isDigit = true :=
    List.all_eq_true.2 fun c => isDigit_of_mem_toDigits
  have hne : (Nat.toDigits 10 e.natAbs).isEmpty = false := by
    simp [Nat.toDigits_ne_nil]
  rw [Layout.exponentPart_one]
  rcases lt_or_ge e 0 with hneg | hneg
  · rw [if_pos hneg]
    simp only [exponent?, takeSign, hdigits, hne, ofDigits_toDigits]
    simp [abs_of_neg hneg]
  · rw [if_neg (not_lt.2 hneg)]
    simp only [exponent?, takeSign, hdigits, hne, ofDigits_toDigits]
    simp [abs_of_nonneg hneg]

/-- Digits, a point, digits and an exponent. -/
theorem decimal?_append {whole fraction tail : List Char} (hne : whole ≠ [])
    (hwhole : ∀ c ∈ whole, c.isDigit = true) (hfraction : ∀ c ∈ fraction, c.isDigit = true)
    (htail : ∀ c ∈ tail.head?, c.isDigit = false) :
    decimal? (whole ++ '.' :: (fraction ++ tail)) =
      (exponent? tail).map fun e => ⟨ofDigits (whole ++ fraction), e - fraction.length⟩ := by
  have hstop : ∀ front back : List Char, (∀ c ∈ front, c.isDigit = true) →
      (∀ c ∈ back.head?, c.isDigit = false) →
      (front ++ back).takeWhile Char.isDigit = front ∧ (front ++ back).dropWhile Char.isDigit = back := by
    intro front back hfront hback
    rw [List.takeWhile_append_of_pos hfront, List.dropWhile_append_of_pos hfront]
    cases back with
    | nil => simp
    | cons c back => simp [hback c (by simp)]
  obtain ⟨htake, hdrop⟩ := hstop whole ('.' :: (fraction ++ tail)) hwhole (by simp)
  obtain ⟨htake', hdrop'⟩ := hstop fraction tail hfraction htail
  simp [decimal?, htake, hdrop, htake', hdrop', hne]

end Numeral

namespace Decimal

/-- A decimal with one digit before the point and an exponent. -/
def exponentForm (d : Decimal) : List Char :=
  d.digits.take 1 ++ '.' :: (d.digits.drop 1 ++ Layout.exponentPart 1 d.leadingExponent)

/-- A decimal has a digit. -/
theorem digits_eq_cons (d : Decimal) : ∃ c rest, d.digits = c :: rest :=
  List.exists_cons_of_ne_nil Nat.toDigits_ne_nil

/-- An exponent form is read as its decimal. -/
theorem decimal?_exponentForm (d : Decimal) : Numeral.decimal? d.exponentForm = some d := by
  obtain ⟨c, rest, hdigits⟩ := d.digits_eq_cons
  have hmem : ∀ a ∈ c :: rest, a.isDigit = true := hdigits ▸ fun a => isDigit_of_mem_toDigits
  have hvalue : Numeral.ofDigits (c :: rest) = d.coefficient := by
    rw [← hdigits, digits, Numeral.ofDigits_toDigits]
  have hexponent : d.leadingExponent - rest.length = d.exponent := by
    rw [leadingExponent, point, hdigits, List.length_cons]
    push_cast
    ring
  rw [exponentForm, hdigits, Numeral.decimal?_append (by simp) (by simpa using hmem c (by simp))
    (fun a ha => hmem a (by simpa using .inr ha)) (by simp [Layout.exponentPart]),
    Numeral.exponent?_exponentPart, Option.map_some]
  simp [hvalue, hexponent]

/-- A decimal written with an exponent is read as itself. -/
theorem parse?_exponentForm (d : Decimal) (negative : Bool) :
    Numeral.parse? (Layout.sign negative ++ d.exponentForm) = some (.finite negative d) := by
  obtain ⟨c, rest, hdigits⟩ := d.digits_eq_cons
  have hmem : ∀ a ∈ c :: rest, a.isDigit = true := hdigits ▸ fun a => isDigit_of_mem_toDigits
  have hnumeric : ∀ a : Char, a.isDigit = true → Token.isNumeric a = true := fun a ha => by
    simp [Token.isNumeric, ha]
  have hplain : ∀ a : Char, a.isDigit = true → Numeral.isPlainCharacter a = true := fun a ha =>
    Numeral.isPlainCharacter_of_isNumeric (hnumeric a ha)
  have hform : d.exponentForm = c :: '.' :: (rest ++ Layout.exponentPart 1 d.leadingExponent) := by
    simp [exponentForm, hdigits]
  rw [hform, Numeral.parse?_sign_append negative (hnumeric c (hmem c (by simp))), ← hform,
    decimal?_exponentForm, Option.map_some]
  rw [Layout.exponentPart_one]
  simp only [List.mem_cons, List.mem_append]
  rintro a (rfl | ha | rfl | rfl | ha)
  · rfl
  · exact hplain a (hmem a (by simp [ha]))
  · rfl
  · split <;> rfl
  · exact hplain a (isDigit_of_mem_toDigits ha)

/-- An exponent form, with a sign in front, stands for its decimal with the sign. -/
theorem written?_exponentForm (d : Decimal) (negative : Bool) :
    Numeral.written? (String.ofList (Layout.sign negative ++ d.exponentForm)) =
      some (withSign negative d.toRat) :=
  Numeral.written?_of_parse? (d.parse?_exponentForm negative)

end Decimal

end DeskCalculator
