import DeskCalculator.Proofs.WrittenDecimal
import DeskCalculator.Session.Percent

/-!
# The number at the end of a line

What the percent key takes for a number: digits of any script, then perhaps a point, then perhaps more
digits. `Percent.split?` cuts a line in front of the longest such piece at its end, which is unique:
`split?_eq_some_iff` and `split?_eq_none_iff`. The piece is always a numeral, so its value exists:
`IsNumber.exists_parse?`.
-/

namespace DeskCalculator

/-! ## Digits of all scripts -/

namespace Text

/-- A digit stands less than ten places behind a zero, and its value is how far. -/
theorem exists_zero_of_isDigit {c : Char} (h : isDigit c = true) :
    ∃ z ∈ decimalZeros, z ≤ c.toNat ∧ c.toNat < z + 10 ∧ digit? c = some (c.toNat - z) := by
  rw [isDigit, digit?, Option.isSome_map] at h
  obtain ⟨z, hz⟩ := Option.isSome_iff_exists.1 h
  have hrange := List.find?_some hz
  simp only [Bool.and_eq_true, decide_eq_true_eq] at hrange
  exact ⟨z, List.mem_of_find?_eq_some hz, hrange.1, hrange.2, by rw [digit?, hz, Option.map_some]⟩

/-- Beyond `0` to `9` there are no digits in ASCII, and the runs of digits keep clear of all blanks. -/
theorem decimalZeros_apart : ∀ z ∈ decimalZeros, (z = 0x30 ∨ 0x660 ≤ z) ∧
    (z + 10 ≤ 0x1680 ∨ 0x1681 ≤ z) ∧ (z + 10 ≤ 0x2000 ∨ 0x3001 ≤ z) := by
  decide

/-- The digits of ASCII are `0` to `9`. -/
theorem isDigit_of_toNat_lt {c : Char} (h : isDigit c = true) (hc : c.toNat < 128) :
    c.isDigit = true := by
  obtain ⟨z, hz, hlow, hhigh, -⟩ := exists_zero_of_isDigit h
  have := decimalZeros_apart z hz
  have hrange : 48 ≤ c.toNat ∧ c.toNat ≤ 57 := by omega
  simpa [Char.isDigit, UInt32.le_iff_toNat_le] using hrange

/-- No digit is blank. -/
theorem isBlank_of_isDigit {c : Char} (h : isDigit c = true) : isBlank c = false := by
  obtain ⟨z, hz, hlow, hhigh, -⟩ := exists_zero_of_isDigit h
  have := decimalZeros_apart z hz
  simp only [isBlank, Bool.or_eq_false_iff, Bool.and_eq_false_iff, decide_eq_false_iff_not,
    beq_eq_false_iff_ne]
  omega

end Text

namespace Percent

/-- Digits of any script, and perhaps a point and more digits after them. -/
def IsNumber (s : List Char) : Prop :=
  ∃ whole fraction : List Char, whole ≠ [] ∧ (∀ c ∈ whole ++ fraction, Text.isDigit c = true) ∧
    (s = whole ++ '.' :: fraction ∨ s = whole ∧ fraction = [])

/-- The longest number at the end of a text. -/
structure IsTrailing (number text : List Char) : Prop where
  isNumber : IsNumber number
  suffix : number <:+ text
  longest : ∀ s, IsNumber s → s <:+ text → s <:+ number

/-- There is one longest number at the end of a text. -/
theorem IsTrailing.eq {s t text : List Char} (hs : IsTrailing s text) (ht : IsTrailing t text) :
    s = t :=
  (ht.longest s hs.isNumber hs.suffix).eq_of_length_le
    (hs.longest t ht.isNumber ht.suffix).length_le

theorem not_isDigit_point : Text.isDigit '.' = false := by
  decide +kernel

namespace IsNumber

variable {s : List Char}

theorem ne_nil (h : IsNumber s) : s ≠ [] := by
  obtain ⟨whole, fraction, hne, -, rfl | ⟨rfl, -⟩⟩ := h
  · simp
  · exact hne

/-- A number ends in a digit, or in a point after a digit. -/
theorem exists_end (h : IsNumber s) :
    ∃ c, Text.isDigit c = true ∧ ([c] <:+ s ∨ [c, '.'] <:+ s) := by
  obtain ⟨whole, fraction, hne, hdigit, hs⟩ := h
  obtain ⟨init, c, rfl⟩ := (List.eq_nil_or_concat whole).resolve_left hne
  have hc : Text.isDigit c = true := hdigit c (by simp)
  rcases hs with rfl | ⟨rfl, -⟩
  · rcases List.eq_nil_or_concat fraction with rfl | ⟨fraction, d, rfl⟩
    · exact ⟨c, hc, .inr ⟨init, by simp⟩⟩
    · exact ⟨d, hdigit d (by simp), .inl ⟨init.concat c ++ '.' :: fraction, by simp⟩⟩
  · exact ⟨c, hc, .inl ⟨init, by simp⟩⟩

/-- The characters of numbers are digits and points. -/
theorem isDigit_or_eq_point (h : IsNumber s) {c : Char} (hc : c ∈ s) :
    Text.isDigit c = true ∨ c = '.' := by
  obtain ⟨whole, fraction, -, hdigit, rfl | ⟨rfl, rfl⟩⟩ := h
  · rcases List.mem_append.1 hc with hc | hc
    · exact .inl (hdigit c (List.mem_append_left _ hc))
    · rcases List.mem_cons.1 hc with rfl | hc
      · exact .inr rfl
      · exact .inl (hdigit c (List.mem_append_right _ hc))
  · exact .inl (hdigit c (by simpa using hc))

/-- A number ends in nothing but a digit or a point. -/
theorem getLast?_ne (h : IsNumber s) {c : Char} (hdigit : Text.isDigit c = false) (hpoint : c ≠ '.') :
    s.getLast? ≠ some c := by
  intro hlast
  rcases h.isDigit_or_eq_point (List.mem_of_getLast? hlast) with hc | hc
  · rw [hdigit] at hc
    exact Bool.false_ne_true hc
  · exact hpoint hc

/-- Before the point of a number there are digits. -/
theorem digits_before_point {t r : List Char} (h : IsNumber (t ++ '.' :: r)) :
    t ≠ [] ∧ ∀ c ∈ t, Text.isDigit c = true := by
  obtain ⟨whole, fraction, hne, hdigit, hs⟩ := h
  have hnone : ∀ l : List Char, (∀ c ∈ l, c ∈ whole ++ fraction) → '.' ∉ l := by
    intro l hl hmem
    have hpoint := hdigit '.' (hl '.' hmem)
    rw [not_isDigit_point] at hpoint
    exact Bool.false_ne_true hpoint
  rcases hs with hs | ⟨hs, -⟩
  · obtain ⟨rfl, -, -⟩ := (List.append_cons_inj_of_notMem
      (hnone whole fun c => List.mem_append_left _) (hnone fraction fun c => List.mem_append_right _)).1
      hs.symm
    exact ⟨hne, fun c hc => hdigit c (List.mem_append_left _ hc)⟩
  · exact absurd (by rw [← hs]; simp) (hnone whole fun c => List.mem_append_left _)

end IsNumber

/-- A number is the longest one at the end unless what stands before it begins a longer one. -/
theorem isTrailing_append {pre s : List Char} (hs : IsNumber s)
    (h : ∀ t, t ≠ [] → t <:+ pre → ¬ IsNumber (t ++ s)) : IsTrailing s (pre ++ s) where
  isNumber := hs
  suffix := List.suffix_append _ _
  longest u hu hsuffix := by
    rcases List.suffix_or_suffix_of_suffix hsuffix (List.suffix_append pre s) with hle | ⟨t, rfl⟩
    · exact hle
    · by_contra hlonger
      refine h t ?_ (List.suffix_append_self_iff.1 hsuffix) hu
      rintro rfl
      exact hlonger List.suffix_rfl

/-! ## Cutting in front of the number

The search goes from the end, so the pieces appear reversed: the last run of digits and, if a point and
another run of digits precede it, these as well. Every number at the end lies in what is found.
-/

/-- What is cut off stands at the end of the line. -/
theorem trailingBackwards_prefix_line (line : List Char) : trailingBackwards line <+: line := by
  have hlast := List.takeWhile_append_dropWhile (p := Text.isDigit) (l := line)
  simp only [trailingBackwards]
  split
  next rest hrest =>
    split
    · exact List.takeWhile_prefix _
    · have hwhole := List.takeWhile_append_dropWhile (p := Text.isDigit) (l := rest)
      refine ⟨rest.dropWhile Text.isDigit, ?_⟩
      rw [List.append_assoc, List.cons_append, hwhole, ← hrest, hlast]
  next => exact List.takeWhile_prefix _

/-- A run of digits at the end of a line is a number. -/
theorem isNumber_takeWhile {line : List Char} (h : line.takeWhile Text.isDigit ≠ []) :
    IsNumber (line.takeWhile Text.isDigit).reverse := by
  refine ⟨_, [], by simpa using h, ?_, .inr ⟨rfl, rfl⟩⟩
  intro c hc
  exact List.mem_takeWhile_imp (by simpa using hc)

/-- What is cut off is a number, unless it is nothing. -/
theorem isNumber_trailingBackwards {line : List Char} (h : trailingBackwards line ≠ []) :
    IsNumber (trailingBackwards line).reverse := by
  simp only [trailingBackwards] at h ⊢
  split
  next rest hrest =>
    split
    next hwhole =>
      refine isNumber_takeWhile ?_
      simpa [hrest, hwhole] using h
    next hwhole =>
      refine ⟨(rest.takeWhile Text.isDigit).reverse, (line.takeWhile Text.isDigit).reverse, ?_, ?_,
        .inl (by simp)⟩
      · simpa using hwhole
      · intro c hc
        rcases List.mem_append.1 hc with hc | hc
        · exact List.mem_takeWhile_imp (List.mem_reverse.1 hc)
        · exact List.mem_takeWhile_imp (List.mem_reverse.1 hc)
  next hrest =>
    refine isNumber_takeWhile ?_
    split at h
    next heq => exact absurd heq (hrest _)
    next => exact h

/-- Every number at the end of the line lies in what is cut off. -/
theorem trailingBackwards_longest {s line : List Char} (hs : IsNumber s.reverse) (h : s <+: line) :
    s <+: trailingBackwards line := by
  obtain ⟨tail, rfl⟩ := h
  obtain ⟨whole, fraction, hne, hdigit, hs | ⟨hs, -⟩⟩ := hs
  · obtain rfl : s = fraction.reverse ++ '.' :: whole.reverse := by
      rw [← List.reverse_reverse s, hs]
      simp
    have hfraction : ∀ c ∈ fraction.reverse, Text.isDigit c = true := fun c hc =>
      hdigit c (List.mem_append_right _ (List.mem_reverse.1 hc))
    have hwhole : ∀ c ∈ whole.reverse, Text.isDigit c = true := fun c hc =>
      hdigit c (List.mem_append_left _ (List.mem_reverse.1 hc))
    -- the point ends the first run, and the whole part begins the second
    have hlast : (fraction.reverse ++ '.' :: (whole.reverse ++ tail)).takeWhile Text.isDigit =
        fraction.reverse := by
      rw [List.takeWhile_append_of_pos hfraction, List.takeWhile_cons_of_neg (by simp [not_isDigit_point]),
        List.append_nil]
    have hrest : (fraction.reverse ++ '.' :: (whole.reverse ++ tail)).dropWhile Text.isDigit =
        '.' :: (whole.reverse ++ tail) := by
      rw [List.dropWhile_append_of_pos hfraction,
        List.dropWhile_cons_of_neg (by simp [not_isDigit_point])]
    have hrun : (whole.reverse ++ tail).takeWhile Text.isDigit =
        whole.reverse ++ tail.takeWhile Text.isDigit := List.takeWhile_append_of_pos hwhole
    refine ⟨tail.takeWhile Text.isDigit, ?_⟩
    simp only [trailingBackwards, List.append_assoc, List.cons_append, hlast, hrest, hrun]
    rw [if_neg (by simp [hne])]
  · obtain rfl : s = whole.reverse := by rw [← hs, List.reverse_reverse]
    have hwhole : ∀ c ∈ whole.reverse, Text.isDigit c = true := fun c hc =>
      hdigit c (List.mem_append_left _ (List.mem_reverse.1 hc))
    have hrun : (whole.reverse ++ tail).takeWhile Text.isDigit =
        whole.reverse ++ tail.takeWhile Text.isDigit := List.takeWhile_append_of_pos hwhole
    simp only [trailingBackwards, hrun]
    split
    · split
      · exact List.prefix_append _ _
      · rw [List.append_assoc]
        exact List.prefix_append _ _
    · exact List.prefix_append _ _

/-- What is found from the end, read forwards, is the longest number at the end. -/
theorem isTrailing_trailingBackwards {text : List Char} (h : trailingBackwards text.reverse ≠ []) :
    IsTrailing (trailingBackwards text.reverse).reverse text where
  isNumber := isNumber_trailingBackwards h
  suffix := by
    rw [← List.reverse_prefix, List.reverse_reverse]
    exact trailingBackwards_prefix_line _
  longest s hs hsuffix := by
    rw [← List.reverse_prefix, List.reverse_reverse]
    exact trailingBackwards_longest (by rwa [List.reverse_reverse]) (List.reverse_prefix.2 hsuffix)

/-- Nothing is cut off exactly if no number stands at the end. -/
theorem trailingBackwards_eq_nil_iff {text : List Char} :
    trailingBackwards text.reverse = [] ↔ ∀ s, IsNumber s → ¬ s <:+ text := by
  constructor
  · intro hnil s hs hsuffix
    have hprefix := trailingBackwards_longest (by rwa [List.reverse_reverse])
      (List.reverse_prefix.2 hsuffix)
    rw [hnil, List.prefix_nil, List.reverse_eq_nil_iff] at hprefix
    exact hs.ne_nil hprefix
  · intro hnone
    by_contra hne
    have htrailing := isTrailing_trailingBackwards hne
    exact hnone _ htrailing.isNumber htrailing.suffix

/-- The cut leaves the line as it is, less a final line feed. -/
theorem exists_split? (line : List Char) :
    ∃ before number, withoutFinalNewline line = before ++ number ∧
      number = (trailingBackwards (withoutFinalNewline line).reverse).reverse ∧
      split? line = if number = [] then none else some (before, number) := by
  have hcut := List.prefix_iff_eq_append.1
    (trailingBackwards_prefix_line (withoutFinalNewline line).reverse)
  refine ⟨((withoutFinalNewline line).reverse.drop
    (trailingBackwards (withoutFinalNewline line).reverse).length).reverse, _, ?_, rfl, ?_⟩
  · rw [← List.reverse_append, hcut, List.reverse_reverse]
  · simp [split?]

/-- The line is cut in front of the longest number at its end. -/
theorem split?_eq_some_iff {line before number : List Char} :
    split? line = some (before, number) ↔
      withoutFinalNewline line = before ++ number ∧ IsTrailing number (withoutFinalNewline line) := by
  obtain ⟨pre, found, hline, hfound, hsplit⟩ := exists_split? line
  rw [hsplit]
  constructor
  · intro h
    split at h
    · exact absurd h (by simp)
    next hne =>
      obtain ⟨rfl, rfl⟩ := Prod.mk.inj (Option.some.inj h)
      refine ⟨hline, ?_⟩
      rw [hfound]
      exact isTrailing_trailingBackwards (by simpa [hfound] using hne)
  · rintro ⟨hbefore, htrailing⟩
    have hne : trailingBackwards (withoutFinalNewline line).reverse ≠ [] := fun hnil =>
      trailingBackwards_eq_nil_iff.1 hnil number htrailing.isNumber htrailing.suffix
    obtain rfl : number = found := hfound ▸ htrailing.eq (isTrailing_trailingBackwards hne)
    rw [if_neg htrailing.isNumber.ne_nil, List.append_cancel_right (hbefore.symm.trans hline)]

/-- A line is not cut exactly if no number stands at its end. -/
theorem split?_eq_none_iff {line : List Char} :
    split? line = none ↔ ∀ s, IsNumber s → ¬ s <:+ withoutFinalNewline line := by
  rw [← trailingBackwards_eq_nil_iff]
  simp [split?]

/-! ## The value of the number -/

/-- Reading turns the digits of other scripts into those of ASCII and leaves the point. -/
theorem exists_toAscii_eq_map (s : List Char) :
    ∃ f : Char → Char, Numeral.toAscii s = s.map f ∧ f '.' = '.' ∧
      ∀ c ∈ s, Text.isDigit c = true → (f c).isDigit = true := by
  rw [Numeral.toAscii]
  split
  next hascii =>
    refine ⟨id, (List.map_id s).symm, rfl, fun c hc hdigit => ?_⟩
    exact Text.isDigit_of_toNat_lt hdigit (by simpa using List.all_eq_true.1 hascii c hc)
  next =>
    refine ⟨_, rfl, rfl, fun c hc hdigit => ?_⟩
    split
    next hlow => exact Text.isDigit_of_toNat_lt hdigit (by omega)
    next =>
      obtain ⟨z, -, hlow, hhigh, hvalue⟩ := Text.exists_zero_of_isDigit hdigit
      rw [Text.isBlank_of_isDigit hdigit, if_neg Bool.false_ne_true, hvalue]
      exact Nat.isDigit_digitChar.trans (decide_eq_true (by omega))

/-- In ASCII a number writes a value. -/
theorem IsNumber.exists_writes {s : List Char} (h : IsNumber s) : ∃ x, Writes (Numeral.toAscii s) x := by
  obtain ⟨whole, fraction, hne, hdigit, hs⟩ := h
  obtain ⟨f, hmap, hpoint, hf⟩ := exists_toAscii_eq_map s
  have hmem : ∀ c ∈ whole ++ fraction, c ∈ s := by
    intro c hc
    rcases hs with rfl | ⟨rfl, rfl⟩
    · rcases List.mem_append.1 hc with hc | hc
      · exact List.mem_append_left _ hc
      · exact List.mem_append_right _ (List.mem_cons_of_mem _ hc)
    · simpa using hc
  refine ⟨_, whole.map f, fraction.map f, by simpa using hne, ?_, ?_, rfl⟩
  · rw [← List.map_append]
    intro c hc
    obtain ⟨d, hd, rfl⟩ := List.mem_map.1 hc
    exact hf d (hmem d hd) (hdigit d hd)
  · rw [hmap]
    rcases hs with rfl | ⟨rfl, rfl⟩
    · exact .inl (by rw [List.map_append, List.map_cons, hpoint])
    · exact .inr ⟨rfl, rfl⟩

/-- A number is a numeral without a minus sign. -/
theorem IsNumber.exists_parse? {s : List Char} (h : IsNumber s) :
    ∃ d, Numeral.parse? s = some (.finite false d) := by
  obtain ⟨x, hx⟩ := h.exists_writes
  obtain ⟨c, rest, hcons, hc⟩ := hx.exists_eq_cons
  have hdigit : ∃ c ∈ Numeral.toAscii s, c.isDigit = true := ⟨c, by simp [hcons], hc⟩
  refine ⟨Literal.decimal (Numeral.toAscii s), ?_⟩
  have hplain : ∀ c ∈ Numeral.toAscii s, Numeral.isPlainCharacter c = true := fun c hc =>
    Numeral.isPlainCharacter_of_isNumeric (hx.numeric c hc)
  rw [Numeral.parse?, Numeral.trim_eq_self hplain, Numeral.dropUnderscores_eq_some false hplain,
    Option.bind_some, Literal.ofAscii?_of_isNumeric hx.numeric, Literal.decimal?_of_count_le hx.numeric hdigit hx.count_le,
    Option.map_some]

end Percent

end DeskCalculator
