import DeskCalculator.Proofs.CoarsestGrid
import DeskCalculator.Proofs.DisplayRoundTrip
import DeskCalculator.Proofs.LastNumber
import DeskCalculator.Proofs.WrittenNumber

/-!
# The forms of the display

A finite double is shown with an exponent or in full: `IsExponent` and `IsPlain` say what the digits look
like, and no text has both forms. How many digits stand before an exponent is a matter of the layout. How
many places a number in full has is not: it is the shortest text of a double, and the double was rounded to
places only before it was written. The multiple of the last place to which the number was rounded lies in
the interval of the double, so the shortest decimal is such a multiple (`onGrid_shortest_of_rounded`), and a
decimal with a digit beyond the place would not be one (`OnGrid.le_of_not_dvd`).
-/

namespace DeskCalculator

open Binary64

/-! ## Numerals -/

/-- The numerals of the natural numbers: digits without a superfluous zero in front. -/
structure IsWholeNumeral (s : List Char) : Prop where
  ne_nil : s ≠ []
  digits : ∀ c ∈ s, c.isDigit = true
  head : s.head? = some '0' → s = ['0']

/-- The numeral of a positive number begins with a digit that counts. -/
theorem head?_toDigits_ne {n : Nat} (hn : 0 < n) : (Nat.toDigits 10 n).head? ≠ some '0' := by
  induction n using Nat.strong_induction_on with
  | _ n ih =>
    rcases lt_or_ge n 10 with hsmall | hlarge
    · rw [Nat.toDigits_of_lt_base hsmall]
      interval_cases n <;> decide
    · rw [Nat.toDigits_of_base_le (by decide) hlarge, List.head?_append_of_ne_nil _ Nat.toDigits_ne_nil]
      exact ih (n / 10) (by omega) (by omega)

/-- The digits of a whole number are a whole numeral. -/
theorem isWholeNumeral_toDigits (n : Nat) : IsWholeNumeral (Nat.toDigits 10 n) where
  ne_nil := Nat.toDigits_ne_nil
  digits _ := isDigit_of_mem_toDigits
  head h := by
    obtain rfl : n = 0 := by
      by_contra hn
      exact head?_toDigits_ne (Nat.pos_of_ne_zero hn) h
    rfl

/-- A numeral, and perhaps a point and at most so many digits of which the last is not zero. -/
def IsPlain (places : Nat) (s : List Char) : Prop :=
  ∃ whole fraction : List Char, IsWholeNumeral whole ∧ (∀ c ∈ fraction, c.isDigit = true) ∧
    fraction.length ≤ places ∧ fraction.getLast? ≠ some '0' ∧
    s = whole ++ if fraction = [] then [] else '.' :: fraction

/-- A digit that counts, a point, so many digits, and an exponent with its sign. -/
def IsExponent (places : Nat) (s : List Char) : Prop :=
  ∃ (first : Char) (fraction : List Char) (sign : Char) (power : List Char),
    first.isDigit = true ∧ first ≠ '0' ∧ (∀ c ∈ fraction, c.isDigit = true) ∧
    fraction.length = places ∧ (sign = '+' ∨ sign = '-') ∧ IsWholeNumeral power ∧
    s = first :: '.' :: (fraction ++ 'e' :: sign :: power)

/-- The two forms have no text in common. -/
theorem IsPlain.not_isExponent {m n : Nat} {s : List Char} (h : IsPlain m s) : ¬ IsExponent n s := by
  obtain ⟨whole, fraction, hwhole, hfraction, -, -, rfl⟩ := h
  rintro ⟨first, fraction', sign, power, -, -, -, -, -, -, heq⟩
  have hmem : 'e' ∈ whole ++ if fraction = [] then [] else '.' :: fraction := by simp [heq]
  rcases List.mem_append.1 hmem with hmem | hmem
  · exact absurd (hwhole.digits _ hmem) (by decide)
  · split at hmem
    next => cases hmem
    next => exact absurd (hfraction 'e' (by simpa using hmem)) (by decide)

/-- Both forms begin with a digit. -/
theorem exists_eq_cons_of_form {m n : Nat} {s : List Char} (h : IsExponent m s ∨ IsPlain n s) :
    ∃ c rest, s = c :: rest ∧ c.isDigit = true := by
  rcases h with ⟨c, fraction, sign, power, hc, -, -, -, -, -, rfl⟩ | ⟨whole, fraction, hwhole, -, -, -, rfl⟩
  · exact ⟨c, _, rfl, hc⟩
  · obtain ⟨c, rest, rfl⟩ := List.exists_cons_of_ne_nil hwhole.ne_nil
    exact ⟨c, _, rfl, hwhole.digits c (by simp)⟩

/-- The digits of a whole number are a plain numeral, whatever the places. -/
theorem isPlain_toDigits (places n : Nat) : IsPlain places (Nat.toDigits 10 n) :=
  ⟨_, [], isWholeNumeral_toDigits n, by simp, Nat.zero_le _, by simp, by simp⟩

/-! ## Decimals in full -/

/-- A number that ten does not divide is on no coarser grid than the one that it counts the units of. -/
theorem OnGrid.le_of_not_dvd {k j : Int} {c : Nat} (h : OnGrid k (c * 10 ^ j)) (hc : ¬ 10 ∣ c) : k ≤ j := by
  obtain ⟨n, hn⟩ := h
  by_contra hlt
  obtain ⟨i, hi⟩ := Int.eq_ofNat_of_zero_le (show 0 ≤ k - j - 1 by omega)
  have hten := ten_zpow_pos j
  have hsplit : k = (i + 1 : Nat) + j := by omega
  rw [hsplit, ten_zpow_natCast_add, ← mul_assoc] at hn
  have hcount : (c : Int) = n * 10 ^ (i + 1) := by
    have := mul_right_cancel₀ hten.ne' hn
    exact_mod_cast this
  refine hc (Int.natCast_dvd_natCast.1 ⟨n * 10 ^ i, ?_⟩)
  rw [hcount, pow_succ]
  push_cast
  ring

namespace Decimal

variable {d : Decimal}

/-- The last significant digit is no zero. -/
theorem getLast?_significant_ne (d : Decimal) : d.significant.getLast? ≠ some '0' := fun h => by
  have := Lexeme.not_of_mem_getLast?_rdropWhile (p := fun c => decide (c = '0')) (s := d.digits) h
  simp at this

/-- The first significant digit is not a zero. -/
theorem head?_significant_ne (d : Decimal) : d.significant.head? ≠ some '0' := fun h => by
  obtain ⟨k, hk⟩ := d.exists_digits_eq
  have hhead : (Nat.toDigits 10 d.coefficient).head? = some '0' := by
    rw [← digits, hk, List.head?_append, h]
    rfl
  have hzero : d.coefficient = 0 := by
    by_contra hne
    exact head?_toDigits_ne (Nat.pos_of_ne_zero hne) hhead
  have hnil : d.significant = [] := by
    rw [significant, digits, hzero]
    rfl
  rw [hnil] at h
  cases h

/-- The number of the significant digits ends in a digit that counts. -/
theorem not_dvd_ofDigits_significant (hne : d.significant ≠ []) :
    ¬ 10 ∣ Numeral.ofDigits d.significant := by
  obtain ⟨front, c, hsplit⟩ : ∃ front c, d.significant = front ++ [c] :=
    ⟨_, _, (List.dropLast_append_getLast hne).symm⟩
  have hdigit : c.isDigit = true := isDigit_of_mem_significant (d := d) (by rw [hsplit]; simp)
  have hcode : 48 ≤ c.toNat ∧ c.toNat ≤ 57 := by
    simpa [Char.isDigit, UInt32.le_iff_toNat_le] using hdigit
  have hzero : c.toNat ≠ 48 := fun h => by
    obtain rfl : c = '0' := Char.toNat_inj.1 h
    exact d.getLast?_significant_ne (by rw [hsplit]; simp)
  have hlast : Numeral.ofDigits [c] = c.toNat - 48 := by
    simp [Numeral.ofDigits]
  rw [hsplit, Numeral.ofDigits_append, hlast, List.length_singleton]
  omega

/-- A decimal on a grid has no significant digit beyond it. -/
theorem length_significant_sub_point_le {k : Int} (hne : d.significant ≠ []) (h : OnGrid k d.toRat) :
    d.significant.length - d.point ≤ -k := by
  rw [toRat_eq_significant] at h
  have := h.le_of_not_dvd (not_dvd_ofDigits_significant hne)
  omega

/-- Digits that begin as the significant ones do have no superfluous zero in front. -/
theorem isWholeNumeral_of_head? {s : List Char} (hs : s ≠ []) (hdigits : ∀ c ∈ s, c.isDigit = true)
    (hhead : s.head? = d.significant.head?) : IsWholeNumeral s :=
  ⟨hs, hdigits, fun h => absurd (hhead.symm.trans h) d.head?_significant_ne⟩

variable {places : Nat}

/-- All digits stand behind the point. -/
theorem isPlain_behind_point (hne : d.significant ≠ []) (hpoint : d.point ≤ 0)
    (hplaces : d.significant.length - d.point ≤ places) :
    IsPlain places ('0' :: '.' :: (List.replicate (-d.point).toNat '0' ++ d.significant)) := by
  refine ⟨['0'], List.replicate (-d.point).toNat '0' ++ d.significant, isWholeNumeral_toDigits 0,
    ?_, ?_, ?_, ?_⟩
  · simp only [List.mem_append]
    rintro c (hc | hc)
    · exact isDigit_of_mem_replicate hc
    · exact isDigit_of_mem_significant hc
  · rw [List.length_append, List.length_replicate]
    omega
  · rw [List.getLast?_append_of_ne_nil _ hne]
    exact d.getLast?_significant_ne
  · simp [hne]

/-- No digit stands behind the point, so there is none. -/
theorem isPlain_before_point (hne : d.significant ≠ []) (n : Nat) :
    IsPlain places (d.significant ++ List.replicate n '0') := by
  refine ⟨_, [], ?_, by simp, Nat.zero_le _, by simp, by simp; rfl⟩
  refine isWholeNumeral_of_head? (d := d) (by simp [hne]) ?_ (List.head?_append_of_ne_nil _ hne)
  simp only [List.mem_append]
  rintro c (hc | hc)
  · exact isDigit_of_mem_significant hc
  · exact isDigit_of_mem_replicate hc

/-- The point stands between two digits. -/
theorem isPlain_around_point (hpoint : 0 < d.point) (h : d.point.toNat < d.significant.length)
    (hplaces : d.significant.length - d.point ≤ places) :
    IsPlain places (d.significant.take d.point.toNat ++ '.' :: d.significant.drop d.point.toNat) := by
  have hdrop : d.significant.drop d.point.toNat ≠ [] := by
    rw [← List.length_pos_iff, List.length_drop]
    omega
  refine ⟨d.significant.take d.point.toNat, d.significant.drop d.point.toNat, ?_, ?_, ?_, ?_, ?_⟩
  · refine isWholeNumeral_of_head? (d := d) ?_ ?_ ?_
    · rw [← List.length_pos_iff, List.length_take]
      omega
    · exact fun c hc => isDigit_of_mem_significant (List.mem_of_mem_take hc)
    · rw [List.head?_take, if_neg (by omega)]
  · exact fun c hc => isDigit_of_mem_significant (List.mem_of_mem_drop hc)
  · rw [List.length_drop]
    omega
  · rw [List.getLast?_drop, if_neg (by omega)]
    exact d.getLast?_significant_ne
  · rw [if_neg hdrop]

/-- A decimal on the grid of so many places is written in full with at most so many places. -/
theorem isPlain_positionalDigits (h : OnGrid (-places) d.toRat) :
    IsPlain places (Layout.positionalDigits [] d) := by
  simp only [Layout.positionalDigits]
  split
  next hnil => exact isPlain_toDigits places 0
  next hne =>
    have hplaces : d.significant.length - d.point ≤ places := by
      have := length_significant_sub_point_le hne h
      rwa [neg_neg] at this
    split
    next hpoint => exact isPlain_behind_point hne hpoint hplaces
    next hpoint =>
      split
      next hshort =>
        rw [List.append_nil]
        exact isPlain_before_point hne _
      next hlong => exact isPlain_around_point (not_le.1 hpoint) (not_le.1 hlong) hplaces

/-! ## Decimals with an exponent -/

/-- A coefficient between two powers of ten has as many digits as the larger one has zeros. -/
theorem length_digits (hlow : 10 ^ places ≤ d.coefficient)
    (hhigh : d.coefficient < 10 ^ (places + 1)) : d.digits.length = places + 1 := by
  have hpos : 0 < d.coefficient := lt_of_lt_of_le (by positivity) hlow
  have hbelow := pow_decimalWidth_sub_one_le hpos
  have habove := lt_pow_decimalWidth d.coefficient
  have h1 := (Nat.pow_lt_pow_iff_right (by decide : 1 < 10)).1 (hlow.trans_lt habove)
  have h2 := (Nat.pow_lt_pow_iff_right (by decide : 1 < 10)).1 (hbelow.trans_lt hhigh)
  have h3 : decimalWidth d.coefficient = d.digits.length := rfl
  omega

/-- With a coefficient in that range the exponent form is as it should be. -/
theorem isExponent_exponentForm (hlow : 10 ^ places ≤ d.coefficient)
    (hhigh : d.coefficient < 10 ^ (places + 1)) : IsExponent places d.exponentForm := by
  have hlength := length_digits hlow hhigh
  obtain ⟨c, rest, hdigits⟩ := d.digits_eq_cons
  have hmem : ∀ a ∈ c :: rest, a.isDigit = true := hdigits ▸ fun a => isDigit_of_mem_toDigits
  have hpos : 0 < d.coefficient := lt_of_lt_of_le (by positivity) hlow
  refine ⟨c, rest, if d.leadingExponent < 0 then '-' else '+', Nat.toDigits 10 d.leadingExponent.natAbs,
    hmem c (by simp), ?_, fun a ha => hmem a (by simp [ha]), ?_, ?_, isWholeNumeral_toDigits _, ?_⟩
  · rintro rfl
    exact head?_toDigits_ne hpos (by rw [← digits, hdigits]; rfl)
  · simpa [hdigits] using hlength
  · split <;> simp
  · rw [exponentForm, hdigits, Layout.exponentPart_one]
    rfl

end Decimal

/-- The display with an exponent is the sign and the exponent form of the nearest decimal. -/
theorem exponential_eq {m : Nat} (hm : m ≠ 0) (places : Nat) (s : Bool) (q : Int) :
    exponential places s m q =
      String.ofList (Layout.sign s ++ (Decimal.scientific (size m q) places).exponentForm) := by
  simp only [exponential, if_neg hm, Decimal.exponentForm, List.append_assoc, List.cons_append]

/-! ## What the display shows -/

namespace Display

variable {d : Display} {v : Float} {s : Bool} {m : Nat} {q : Int}

/-- A text without an exponent: digits that write a number with at most so many places, behind a sign that
zero does not have. -/
structure InFull (places : Int) (s : Bool) (text : String) (body : List Char) (y : Rat) : Prop where
  text_eq : text = String.ofList (Layout.sign (s && decide (y ≠ 0)) ++ body)
  isPlain : IsPlain places.toNat body
  writes : Writes body y
  onGrid : OnGrid (-places) y

variable {places : Int}

/-- The text of a whole number is in full. -/
theorem inFull_wholeText (hp : 0 ≤ places) (s : Bool) (n : Nat) :
    InFull places s (wholeText s n) (Nat.toDigits 10 n) n where
  text_eq := by
    have hzero : (n != 0) = decide ((n : Rat) ≠ 0) := by
      by_cases hn : n = 0 <;> simp [hn]
    rw [wholeText, hzero]
  isPlain := isPlain_toDigits _ n
  writes := writes_toDigits n
  onGrid := OnGrid.of_le (k := 0) ⟨n, by simp⟩ (by omega)

/-- The shortest decimal of a double that was rounded to places has no more places. -/
theorem onGrid_shortest_of_rounded (hc : Canonical m q) (hm : 0 < m) {x : Rat} (hx : 0 ≤ x)
    (h : rounded (nearestMultiple places x) = size m q ∨ 323 < places) :
    OnGrid (-places) (Decimal.shortest m q).toRat := by
  rcases h with h | h
  · have hpos : 0 < nearestMultiple places x := by
      refine (nearestMultiple_nonneg hx).lt_of_ne fun hzero => (size_pos hm q).ne ?_
      rw [← h, ← hzero, rounded_zero]
    exact Decimal.onGrid_shortest hc hm (contains_of_rounded_eq hc hm hpos h) (onGrid_nearestMultiple _ _)
  · exact (Decimal.onGrid_shortest_324 hc hm).of_le (by omega)

/-- A shortest decimal that fits into the places is written in full. -/
theorem inFull_plain_text (hp : 0 ≤ places) (hv : ofFloat v = finite s m q) (hm : 0 < m)
    (hgrid : OnGrid (-places) (Decimal.shortest m q).toRat) :
    InFull places s (Layout.plain.text v) (Layout.positionalDigits [] (.shortest m q))
      (Decimal.shortest m q).toRat where
  text_eq := by
    have hne : (Decimal.shortest m q).toRat ≠ 0 := fun hzero => by
      have hrounded := Decimal.rounded_shortest (canonical_of_finite hv)
      rw [hzero, rounded_zero] at hrounded
      exact (size_pos hm q).ne hrounded
    simp only [Layout.text, hv, Layout.decimal, Layout.plain, or_true, if_true, decide_eq_true hne,
      Bool.and_true]
  isPlain := Decimal.isPlain_positionalDigits (by rwa [Int.toNat_of_nonneg hp])
  writes := writes_positionalDigits _
  onGrid := hgrid

/-- What is shown without an exponent is a number that is read as the double rounded to places. -/
theorem exists_fixedText (hp : 0 ≤ d.fixedDigits) (hv : ofFloat v = finite s m q) :
    ∃ body y, InFull d.fixedDigits s (d.fixedText v) body y ∧ (m = 0 → y = 0) ∧
      ∃ n r, ofFloat (roundToPlaces d.fixedDigits v) = finite s n r ∧ rounded y = size n r := by
  obtain ⟨n, r, hn, hround⟩ := exists_ofFloat_roundToPlaces hp hv
  have hc := canonical_of_finite hn
  rw [fixedText]
  cases hw : whole? v with
  | some whole =>
    -- a whole number is not changed by rounding it to places
    obtain ⟨t, k⟩ := whole
    obtain ⟨m', q', hv', hsize⟩ := exists_of_whole?_eq_some hw
    obtain ⟨rfl, rfl, rfl⟩ := Binary64.finite.inj (hv.symm.trans hv')
    refine ⟨_, k, inFull_wholeText hp s k, ?_, n, r, hn, ?_⟩
    · rintro rfl
      rw [← hsize, size_zero]
    have hmultiple : nearestMultiple d.fixedDigits (size m q) = k := by
      rw [hsize]
      exact_mod_cast nearestMultiple_intCast hp k
    rcases hround with hround | ⟨-, hsame⟩
    · rwa [hmultiple] at hround
    · rw [← hsize, ← hsame, rounded_size hc]
  | none =>
    have hm := ne_zero_of_whole?_eq_none hv hw
    simp only
    cases hr : whole? (roundToPlaces d.fixedDigits v) with
    | some whole =>
      obtain ⟨t, k⟩ := whole
      obtain ⟨n', r', hn', hsize⟩ := exists_of_whole?_eq_some hr
      obtain ⟨rfl, rfl, rfl⟩ := Binary64.finite.inj (hn.symm.trans hn')
      refine ⟨_, k, inFull_wholeText hp s k, fun hzero => absurd hzero hm, n, r, hn, ?_⟩
      rw [← hsize, rounded_size hc]
    | none =>
      have hpos := Nat.pos_of_ne_zero (ne_zero_of_whole?_eq_none hn hr)
      have hgrid := onGrid_shortest_of_rounded hc hpos (size_nonneg m q) (hround.imp_right And.left)
      exact ⟨_, _, inFull_plain_text hp hn hpos hgrid, fun hzero => absurd hzero hm, n, r, hn,
        Decimal.rounded_shortest hc⟩

/-- What is shown with an exponent: the digits of the rounding to so many significant digits. -/
theorem text_of_usesExponent (hp : 0 ≤ d.exponentDigits) (hv : ofFloat v = finite s m q) (hm : m ≠ 0)
    (h : d.usesExponent v.abs = true) :
    d.text v = .ok (String.ofList (Layout.sign s ++
      (Decimal.scientific (size m q) d.exponentDigits.toNat).exponentForm)) := by
  simp only [text, hv, h, if_true, if_neg (not_lt.2 hp), exponential_eq hm]

/-- A finite double that needs no exponent is shown in full. -/
theorem text_of_not_usesExponent (hv : ofFloat v = finite s m q) (h : d.usesExponent v.abs = false) :
    d.text v = .ok (d.fixedText v) := by
  simp only [text, hv, h, Bool.false_eq_true, if_false]

/-- Zero is never shown with an exponent if both bounds are positive. -/
theorem ne_zero_of_usesExponent (hlower : 0 < d.exponentLower) (hupper : d.exponentLower < d.exponentUpper)
    (hv : ofFloat v = finite s m q) (h : d.usesExponent v.abs = true) : m ≠ 0 := by
  rintro rfl
  have habs := ofFloat_abs hv
  simp only [usesExponent, Bool.or_eq_true, Bool.and_eq_true, decide_eq_true_eq] at h
  rcases h with h | ⟨h, -⟩
  · exact not_le_zero_of_lt_of_lt hlower hupper habs h
  · have hzero : ofFloat 0 = finite false 0 lowestExponent := by decide +kernel
    simp [lt_iff hzero habs, signed] at h

/-- A finite double is shown in one of the two forms, each at its place, with a sign that zero does not
have. -/
theorem exists_form (hlower : 0 < d.exponentLower) (hupper : d.exponentLower < d.exponentUpper)
    (hexponent : 0 ≤ d.exponentDigits) (hfixed : 0 ≤ d.fixedDigits) (hv : ofFloat v = finite s m q) :
    ∃ body y, d.text v = .ok (String.ofList (Layout.sign (s && decide (y ≠ 0)) ++ body)) ∧
      (IsExponent d.exponentDigits.toNat body ∧ d.usesExponent v.abs = true ∨
        IsPlain d.fixedDigits.toNat body ∧ d.usesExponent v.abs = false) ∧
      Numeral.written? (String.ofList (Layout.sign (s && decide (y ≠ 0)) ++ body)) = some (withSign s y) ∧
      (m = 0 → y = 0) := by
  cases h : d.usesExponent v.abs with
  | true =>
    have hm := ne_zero_of_usesExponent hlower hupper hv h
    obtain ⟨hlow, hhigh⟩ := Decimal.coefficient_scientific_bounds (size_pos (Nat.pos_of_ne_zero hm) q)
      d.exponentDigits.toNat
    have hne : (Decimal.scientific (size m q) d.exponentDigits.toNat).toRat ≠ 0 := by
      refine mul_ne_zero ?_ (ten_zpow_pos _).ne'
      exact_mod_cast (lt_of_lt_of_le (by positivity) hlow : 0 < _).ne'
    refine ⟨_, (Decimal.scientific (size m q) d.exponentDigits.toNat).toRat, ?_,
      .inl ⟨Decimal.isExponent_exponentForm hlow hhigh, rfl⟩, ?_, fun hzero => absurd hzero hm⟩
    · rw [decide_eq_true hne, Bool.and_true]
      exact text_of_usesExponent hexponent hv hm h
    · rw [decide_eq_true hne, Bool.and_true]
      exact Decimal.written?_exponentForm _ s
  | false =>
    obtain ⟨body, y, hshown, hzero, -⟩ := exists_fixedText hfixed hv
    refine ⟨body, y, ?_, .inr ⟨hshown.isPlain, rfl⟩, ?_, hzero⟩
    · rw [text_of_not_usesExponent hv h, hshown.text_eq]
    · rw [hshown.writes.written?_sign_append, withSign_and_ne_zero]

/-- An exponent is used from the upper threshold on, and below the lower one. -/
theorem usesExponent_iff {x : Float} :
    d.usesExponent x = true ↔ d.exponentUpper ≤ x ∨ 0 < x ∧ x < d.exponentLower := by
  simp [usesExponent]

/-- As the two forms exclude each other, each says where the number is. -/
theorem form_iff {m n : Nat} {body : List Char} {uses : Bool}
    (h : IsExponent m body ∧ uses = true ∨ IsPlain n body ∧ uses = false) :
    (IsExponent m body ↔ uses = true) ∧ (IsPlain n body ↔ ¬ uses = true) := by
  rcases h with ⟨hform, rfl⟩ | ⟨hform, rfl⟩
  · exact ⟨iff_of_true hform rfl, iff_of_false (fun hplain => hplain.not_isExponent hform) (by decide)⟩
  · exact ⟨iff_of_false hform.not_isExponent (by decide), iff_of_true hform (by decide)⟩

/-- What begins with a digit behind its sign is different from a text that begins in another way. -/
theorem sign_append_ne {negative : Bool} {c : Char} {rest : List Char} {name : String} (first : Char)
    (hc : c.isDigit = true) (hname : name.toList.head? = some first) (hfirst : first.isDigit = false)
    (hminus : first = '-' → negative = false) :
    String.ofList (Layout.sign negative ++ c :: rest) ≠ name := by
  rintro rfl
  rw [String.toList_ofList] at hname
  cases negative with
  | false =>
    obtain rfl : c = first := by simpa [Layout.sign] using hname
    rw [hc] at hfirst
    cases hfirst
  | true =>
    have := hminus (by simpa [Layout.sign] using hname.symm)
    cases this

/-- Every text of the display has one of four forms: the name of the infinities, the name of NaN, a number
with an exponent outside the two bounds, and a number in full, with so many places at most, between them.
Only a number other than zero has a sign. -/
theorem text_forms (d : Display) (hlower : 0 < d.exponentLower) (hupper : d.exponentLower < d.exponentUpper)
    (hexponent : 1 ≤ d.exponentDigits) (hfixed : 1 ≤ d.fixedDigits) (v : Float) :
    ∃ text, d.text v = .ok text ∧ text ≠ "-0" ∧
      (text = "Infinity" ↔ v.isInf = true) ∧ (text = "NaN" ↔ v.isNaN = true) ∧
      (v.isFinite = true → ∃ negative body y, text = String.ofList (Layout.sign negative ++ body) ∧
        (IsExponent d.exponentDigits.toNat body ↔
          d.exponentUpper ≤ v.abs ∨ 0 < v.abs ∧ v.abs < d.exponentLower) ∧
        (IsPlain d.fixedDigits.toNat body ↔
          ¬ (d.exponentUpper ≤ v.abs ∨ 0 < v.abs ∧ v.abs < d.exponentLower)) ∧
        Numeral.written? text = some y ∧ (negative = true ↔ v < 0 ∧ y ≠ 0)) := by
  cases hv : ofFloat v with
  | nan =>
    refine ⟨"NaN", by simp [text, hv], by decide, iff_of_false (by decide) ?_,
      iff_of_true rfl ((isNaN_iff v).2 hv), fun hfinite => ?_⟩
    · simp [isInf_iff, hv]
    · simp [isFinite_iff, hv] at hfinite
  | infinite s =>
    refine ⟨"Infinity", by simp [text, hv], by decide, iff_of_true rfl ((isInf_iff v).2 ⟨s, hv⟩),
      iff_of_false (by decide) ?_, fun hfinite => ?_⟩
    · rw [isNaN_iff, hv]
      exact Binary64.noConfusion
    · simp [isFinite_iff, hv] at hfinite
  | finite s m q =>
    obtain ⟨body, y, htext, hform, hwritten, hzero⟩ := exists_form hlower hupper (by omega) (by omega) hv
    obtain ⟨hexponential, hplain⟩ := form_iff hform
    rw [usesExponent_iff] at hexponential hplain
    obtain ⟨c, rest, rfl, hc⟩ := exists_eq_cons_of_form (hform.imp And.left And.left)
    refine ⟨_, htext, fun h => ?_,
      iff_of_false (sign_append_ne 'I' hc rfl (by decide) fun h => absurd h (by decide)) ?_,
      iff_of_false (sign_append_ne 'N' hc rfl (by decide) fun h => absurd h (by decide)) ?_,
      fun _ => ⟨_, _, withSign s y, rfl, hexponential, hplain, hwritten, ?_⟩⟩
    · -- the text writes zero, which has no sign
      have hy : y = 0 := by
        have hvalue : Numeral.written? "-0" = some 0 := by decide +kernel
        rw [h, hvalue] at hwritten
        by_contra hy
        exact withSign_ne_zero_iff.2 hy (Option.some.inj hwritten).symm
      exact sign_append_ne '-' hc rfl (by decide) (fun _ => by simp [hy]) h
    · simp [isInf_iff, hv]
    · rw [isNaN_iff, hv]
      exact Binary64.noConfusion
    · rw [lt_zero_iff hv, withSign_ne_zero_iff, Bool.and_eq_true, decide_eq_true_eq]
      constructor
      · rintro ⟨hs, hy⟩
        exact ⟨⟨hs, fun hm => hy (hzero hm)⟩, hy⟩
      · rintro ⟨⟨hs, -⟩, hy⟩
        exact ⟨hs, hy⟩

/-- A negative number that ten places do not reach is shown as zero without a sign. -/
theorem text_forms_neg_tiny :
    ∃ text, ({ standard with exponentLower := 1e-20 } : Display).text (-3e-12) = .ok text ∧ text ≠ "-0" ∧
      ∃ negative body y, text = String.ofList (Layout.sign negative ++ body) ∧ IsPlain 10 body ∧
        Numeral.written? text = some y ∧ (negative = true ↔ (-3e-12 : Float) < 0 ∧ y ≠ 0) := by
  obtain ⟨text, htext, hne, -, -, hfinite⟩ := text_forms { standard with exponentLower := 1e-20 }
    (by decide +kernel) (by decide +kernel) (by decide) (by decide) (-3e-12)
  obtain ⟨negative, body, y, heq, -, hplain, hwritten, hsign⟩ := hfinite (by decide +kernel)
  exact ⟨text, htext, hne, negative, body, y, heq, hplain.2 (by decide +kernel), hwritten, hsign⟩

end Display

end DeskCalculator
