import DeskCalculator.Proofs.DisplayForms
import DeskCalculator.Proofs.ExactOperations

/-!
# The accuracy of the display

The standard display is correctly rounded. With an exponent this is one rounding of the exact value. In
full it takes three steps: the exact value is rounded to a multiple of the tenth place, the multiple to a
double, and the double is written with the fewest digits. Below `2 ^ 19` the last two cancel: what is
written is a multiple of the tenth place again and is read as the same double, and no two multiples are
(`eq_nearestMultiple_of_rounded_eq`). From `2 ^ 19` on the first two cancel, and the text is read as the
number itself.
-/

namespace DeskCalculator

open Binary64

/-! ## Nearest decimals with a sign -/

/-- The sign goes along with the nearest decimal, where a coefficient may have either sign. -/
theorem IsNearest.withSign {admits : Int → Int → Prop} {x y : Rat}
    (hadmits : ∀ c e, admits c e → admits (-c) e) (h : IsNearest admits x y) (s : Bool) :
    IsNearest admits (withSign s x) (withSign s y) := by
  cases s with
  | false => exact h
  | true => exact h.neg hadmits

/-- A coefficient has as many digits with the other sign. -/
theorem HasDigits.neg {n : Nat} {c e : Int} (h : HasDigits n c e) : HasDigits n (-c) e := by
  rwa [HasDigits, abs_neg]

/-- Signed numbers are as far apart as the numbers. -/
theorem withSign_sub (s : Bool) (x y : Rat) : withSign s y - withSign s x = withSign s (y - x) := by
  cases s with
  | false => rfl
  | true => exact (neg_sub' y x).symm

/-- The sign leaves the size. -/
@[simp] theorem abs_withSign (s : Bool) (x : Rat) : |withSign s x| = |x| := by
  cases s with
  | false => rfl
  | true => exact abs_neg x

/-- A finite double stands for its size with its sign. -/
theorem toRat?_of_finite {v : Float} {s : Bool} {m : Nat} {q : Int} (hv : ofFloat v = finite s m q) :
    (ofFloat v).toRat? = some (withSign s (size m q)) := by
  rw [hv]
  rfl

/-! ## The number behind the tenth place -/

variable {x y : Rat}

/-- Up to `2 ^ 19` doubles are closer than the tenth place, so no two multiples of it round to one. -/
theorem eq_nearestMultiple_of_rounded_eq (hx : 0 ≤ x) (hle : x ≤ 2 ^ 19) (hy : 0 ≤ y)
    (hgrid : OnGrid (-10) y) (h : rounded y = rounded (nearestMultiple 10 x)) :
    y = nearestMultiple 10 x := by
  have hmove := abs_rounded_nearestMultiple_sub_le hx hle
  have hbelow : y < 2 ^ (-33 + 53 : Int) := by
    by_contra hge
    have htwo : rounded (size (2 ^ 52) (-32)) = size (2 ^ 52) (-32) :=
      rounded_size ⟨by norm_num, by decide, by decide, .inr le_rfl⟩
    have hsize : size (2 ^ 52) (-32) = 2 ^ (-33 + 53 : Int) := by norm_num [size]
    have hup := rounded_mono (two_zpow_pos _).le (not_lt.1 hge)
    have hdown : rounded (nearestMultiple 10 x) ≤ 2 ^ 19 := by
      have hmultiple : nearestMultiple 10 x ≤ nearestMultiple 10 (2 ^ 19) := nearestMultiple_mono hle
      have := rounded_mono (nearestMultiple_nonneg hx) hmultiple
      rwa [nearestMultiple_two_pow_19, rounded_two_pow_19] at this
    rw [h, ← hsize, htwo, hsize] at hup
    norm_num at hup hdown
    linarith
  have hmove' := abs_rounded_sub_le_of_lt hy (by decide) hbelow
  refine hgrid.eq_of_abs_sub_lt (onGrid_nearestMultiple 10 x) ?_
  have htriangle := abs_sub_le y (rounded y) (nearestMultiple 10 x)
  rw [abs_sub_comm y (rounded y), h] at htriangle
  rw [h] at hmove'
  norm_num at hmove hmove' htriangle ⊢
  linarith

namespace Display

variable {v : Float} {s : Bool} {m : Nat} {q : Int}

/-- What is shown in full: up to `2 ^ 19` the multiple of the tenth place nearest to the number, and from
there on a number that is read as the double. -/
theorem exists_writes_of_shownInFull (h : ShownInFull v) (hv : ofFloat v = finite s m q) :
    ∃ body y, standard.text v = .ok (String.ofList (Layout.sign (s && decide (y ≠ 0)) ++ body)) ∧
      Writes body y ∧ (size m q ≤ 2 ^ 19 → y = nearestMultiple 10 (size m q)) ∧
      (2 ^ 19 ≤ size m q → rounded y = size m q) := by
  obtain ⟨body, y, hshown, -, n, r, hn, hround⟩ := exists_fixedText (d := standard) (by decide) hv
  obtain ⟨n', r', hn', hmultiple, -⟩ := exists_roundToPlaces_eq hv
  obtain ⟨-, rfl, rfl⟩ := Binary64.finite.inj (hn.symm.trans hn')
  refine ⟨body, y, by rw [h.text_eq, hshown.text_eq], hshown.writes, fun hle => ?_, fun hge => ?_⟩
  · exact eq_nearestMultiple_of_rounded_eq (size_nonneg m q) hle hshown.writes.nonneg hshown.onGrid
      (hround.trans hmultiple.symm)
  · rw [hround, ← hmultiple, rounded_nearestMultiple_of_le (canonical_of_finite hv) hge]

/-- What is shown with an exponent: the rounding to nine significant digits. -/
theorem text_of_not_shownInFull (h : ¬ ShownInFull v) (hv : ofFloat v = finite s m q) :
    0 < m ∧ standard.text v =
      .ok (String.ofList (Layout.sign s ++ (Decimal.scientific (size m q) 8).exponentForm)) := by
  have hm : m ≠ 0 := by
    rintro rfl
    exact h ((shownInFull_iff hv).2 (.inl rfl))
  have huses : standard.usesExponent v.abs = true := by
    by_contra hno
    exact h ((usesExponent_eq_false_iff hv).1 (by simpa using hno))
  exact ⟨Nat.pos_of_ne_zero hm, text_of_usesExponent (by decide) hv hm huses⟩

/-- With an exponent the display is correctly rounded. -/
theorem standard_exponent_nearest (v : Float) (hfinite : v.isFinite = true)
    (h : 1e12 ≤ v.abs ∨ 0 < v.abs ∧ v.abs < 1e-6) :
    ∃ x negative body y, (ofFloat v).toRat? = some x ∧
      standard.text v = .ok (String.ofList (Layout.sign negative ++ body)) ∧ IsExponent 8 body ∧
      (negative = true ↔ v < 0) ∧
      Numeral.written? (String.ofList (Layout.sign negative ++ body)) = some y ∧
      IsNearest (HasDigits 9) x y ∧
      ∀ k : Int, (10 ^ 9 - 1 / 2) * 10 ^ k ≤ |x| → |x| < 10 ^ 9 * 10 ^ k → |y| = 10 ^ (9 + k) := by
  obtain ⟨s, m, q, hv⟩ := (isFinite_iff v).1 hfinite
  have huses : standard.usesExponent v.abs = true := usesExponent_iff.2 h
  have hshown : ¬ ShownInFull v := fun hshown => by
    rw [(usesExponent_eq_false_iff hv).2 hshown] at huses
    cases huses
  obtain ⟨hm, htext⟩ := text_of_not_shownInFull hshown hv
  have hsize := size_pos hm q
  obtain ⟨hlow, hhigh⟩ := Decimal.coefficient_scientific_bounds hsize 8
  refine ⟨_, s, _, _, toRat?_of_finite hv, htext, Decimal.isExponent_exponentForm hlow hhigh,
    ?_, Decimal.written?_exponentForm _ s, ?_, fun k hle hlt => ?_⟩
  · rw [lt_zero_iff hv]
    simp [hm.ne']
  · exact (Decimal.isNearest_scientific hsize (by decide)).withSign (fun _ _ => HasDigits.neg) s
  · rw [abs_withSign, abs_of_pos hsize] at hle hlt
    rw [abs_withSign, abs_of_nonneg (toRat_nonneg _), Decimal.toRat_scientific_carry hle hlt]
    rfl

/-- Halfway between 9.99999999 and ten the digits are carried, because the last nine is odd. -/
theorem standard_exponent_nearest_carry :
    ∃ negative body y, standard.text 9999999995000 = .ok (String.ofList (Layout.sign negative ++ body)) ∧
      IsExponent 8 body ∧ Numeral.written? (String.ofList (Layout.sign negative ++ body)) = some y ∧
      IsNearest (HasDigits 9) 9999999995000 y ∧ |y| = 10 ^ 13 := by
  obtain ⟨x, negative, body, y, hx, htext, hform, -, hwritten, hnearest, hcarry⟩ :=
    standard_exponent_nearest 9999999995000 (by decide +kernel) (.inl (by decide +kernel))
  have hvalue : (ofFloat 9999999995000).toRat? = some 9999999995000 := by decide +kernel
  obtain rfl := Option.some.inj (hx.symm.trans hvalue)
  exact ⟨negative, body, y, htext, hform, hwritten, hnearest, hcarry 4 (by norm_num) (by norm_num)⟩

/-- Without an exponent the display is accurate: below `2 ^ 19` it shows the nearest decimal with ten
places, and from there on the text is read as the double. -/
theorem standard_full_accurate (v : Float) (hlow : 1e-6 ≤ v.abs) (hhigh : v.abs < 1e12) :
    ∃ x text y, (ofFloat v).toRat? = some x ∧ standard.text v = .ok text ∧
      Numeral.written? text = some y ∧
      (|x| < 2 ^ 19 → IsNearest (HasPlaces 10) x y ∧ |y - x| ≤ 5 / 10 ^ 11) ∧
      (2 ^ 19 ≤ |x| → Numeral.float? text = some v) := by
  have hshown : ShownInFull v := .inr ⟨hlow, hhigh⟩
  obtain ⟨s, m, q, hv⟩ := exists_of_shownInFull hshown
  obtain ⟨body, y, htext, hwrites, hplaces, hdouble⟩ := exists_writes_of_shownInFull hshown hv
  have hsize := size_nonneg m q
  refine ⟨_, _, withSign s y, toRat?_of_finite hv, htext, ?_, fun hlt => ?_, fun hle => ?_⟩
  · rw [hwrites.written?_sign_append, withSign_and_ne_zero]
  · rw [abs_withSign, abs_of_nonneg hsize] at hlt
    rw [withSign_sub, abs_withSign, hplaces hlt.le]
    refine ⟨(isNearest_nearestMultiple 10 (size m q)).withSign (fun _ _ h => h) s, ?_⟩
    have hdist := abs_nearestMultiple_sub_le 10 (size m q)
    norm_num at hdist ⊢
    linarith
  · rw [abs_withSign, abs_of_nonneg hsize] at hle
    have hrounded := hdouble hle
    have hne : y ≠ 0 := by
      rintro rfl
      rw [rounded_zero] at hrounded
      norm_num [← hrounded] at hle
    rw [hwrites.float?_sign_append, decide_eq_true hne, Bool.and_true,
      nearest_eq hv hwrites.nonneg hrounded]

/-- A number of each kind. -/
theorem standard_full_accurate_twice :
    (∃ text y, standard.text (-3.1) = .ok text ∧ Numeral.written? text = some y ∧
      ∃ x, (ofFloat (-3.1)).toRat? = some x ∧ IsNearest (HasPlaces 10) x y ∧ |y - x| ≤ 5 / 10 ^ 11) ∧
    ∃ text, standard.text 54321987654.3 = .ok text ∧ Numeral.float? text = some 54321987654.3 := by
  obtain ⟨x, text, y, hx, htext, hwritten, hsmall, -⟩ :=
    standard_full_accurate (-3.1) (by decide +kernel) (by decide +kernel)
  obtain ⟨x', text', y', hx', htext', -, -, hlarge⟩ :=
    standard_full_accurate 54321987654.3 (by decide +kernel) (by decide +kernel)
  have hvalue : (ofFloat (-3.1)).toRat? = some (-6980579422424269 / 2 ^ 51) := by decide +kernel
  have hvalue' : (ofFloat 54321987654.3).toRat? = some (3560045782912205 / 2 ^ 16) := by decide +kernel
  obtain rfl := Option.some.inj (hx.symm.trans hvalue)
  obtain rfl := Option.some.inj (hx'.symm.trans hvalue')
  exact ⟨⟨text, y, htext, hwritten, _, hx, hsmall (by norm_num [abs_of_neg])⟩, text', htext',
    hlarge (by norm_num)⟩

end Display

end DeskCalculator
