import DeskCalculator.Proofs.DisplayAccuracy

/-!
# The order of the display

The standard display rounds in three ways: to nine significant digits outside its two bounds, to ten places
up to `2 ^ 19`, and not at all between `2 ^ 19` and the upper bound, where a text stands for a double.
`Shown` says which of these a size falls under. Each keeps the order, and none passes the end of its range:
the ends, `10 ^ -6`, `2 ^ 19` and `10 ^ 12`, are shown as themselves by the ways on both sides. The lower
bound is the double nearest to `10 ^ -6`, which is less than `10 ^ -6` and shown as it.
-/

namespace DeskCalculator

open Binary64

/-! ## The number that is shown for a size -/

/-- The number that the standard display shows for a number that is not negative, range by range. -/
structure Shown (x y : Rat) : Prop where
  nonneg : 0 ≤ y
  zero : x = 0 → y = 0
  exponent : 0 < x → x < leastInFull ∨ leastWithExponent ≤ x → y = (Decimal.scientific x 8).toRat
  places : leastInFull ≤ x → x ≤ 2 ^ 19 → y = nearestMultiple 10 x
  double : 2 ^ 19 < x → x < leastWithExponent → rounded y = x

/-- The smallest number shown in full rounds to a millionth. -/
theorem nearestMultiple_leastInFull : nearestMultiple 10 leastInFull = 10 ^ (-6 : Int) := by
  have heq : ((10000 : Int) : Rat) / 10 ^ (10 : Int) = 10 ^ (-6 : Int) := by norm_num
  rw [← heq]
  refine nearestMultiple_eq ?_
  norm_num [leastInFull, size, abs_of_neg]

/-- The smallest number shown in full lies below a millionth. -/
theorem leastInFull_lt_millionth : leastInFull < 10 ^ (-6 : Int) := by
  norm_num [leastInFull, size]

/-- The smallest number with an exponent is a trillion. -/
theorem leastWithExponent_eq : leastWithExponent = 10 ^ (12 : Int) := by
  norm_num [leastWithExponent, size]

/-- A trillion is a double. -/
theorem rounded_leastWithExponent : rounded leastWithExponent = leastWithExponent :=
  rounded_size (canonical_of_finite ofFloat_trillion)

/-- Rounding to a double keeps the order, so it also shows it. -/
theorem lt_of_rounded_lt {x y : Rat} (hy : 0 ≤ y) (h : rounded x < rounded y) : x < y := by
  by_contra hle
  exact absurd (rounded_mono hy (not_lt.1 hle)) (not_le.2 h)

namespace Shown

variable {x y x' y' : Rat}

/-! ## The bounds of the ranges -/

/-- What is too small to be shown in full is shown as a millionth at most. -/
theorem le_millionth (h : Shown x y) (hpos : 0 < x) (hx : x < leastInFull) : y ≤ 10 ^ (-6 : Int) := by
  rw [h.exponent hpos (.inl hx)]
  exact Decimal.toRat_scientific_le hpos (hx.trans leastInFull_lt_millionth) 8

/-- From a trillion on nothing is shown below a trillion. -/
theorem trillion_le (h : Shown x y) (hx : leastWithExponent ≤ x) : leastWithExponent ≤ y := by
  rw [h.exponent (leastWithExponent_pos.trans_le hx) (.inr hx), leastWithExponent_eq]
  exact Decimal.le_toRat_scientific (leastWithExponent_eq ▸ hx) 8

/-- Below a trillion nothing is shown above it. -/
theorem le_trillion (h : Shown x y) (hlow : 2 ^ 19 < x) (hhigh : x < leastWithExponent) :
    y ≤ leastWithExponent := by
  refine (lt_of_rounded_lt leastWithExponent_pos.le ?_).le
  rwa [h.double hlow hhigh, rounded_leastWithExponent]

/-- Above `2 ^ 19` nothing is shown below it. -/
theorem two_pow_19_le (h : Shown x y) (hx : 2 ^ 19 < x) : 2 ^ 19 ≤ y := by
  rcases lt_or_ge x leastWithExponent with hhigh | hhigh
  · refine (lt_of_rounded_lt h.nonneg ?_).le
    rwa [h.double hx hhigh, rounded_two_pow_19]
  · refine le_trans ?_ (h.trillion_le hhigh)
    norm_num [leastWithExponent, size]

/-- Up to `2 ^ 19` no number in full is shown above it. -/
theorem le_two_pow_19 (h : Shown x y) (hlow : leastInFull ≤ x) (hx : x ≤ 2 ^ 19) : y ≤ 2 ^ 19 := by
  rw [h.places hlow hx]
  exact (nearestMultiple_mono hx).trans_eq nearestMultiple_two_pow_19

/-- No number in full is shown below a millionth. -/
theorem millionth_le (h : Shown x y) (hx : leastInFull ≤ x) : 10 ^ (-6 : Int) ≤ y := by
  rcases le_or_gt x (2 ^ 19) with hhigh | hhigh
  · rw [h.places hx hhigh, ← nearestMultiple_leastInFull]
    exact nearestMultiple_mono hx
  · refine le_trans ?_ (h.two_pow_19_le hhigh)
    norm_num

/-- The larger number is not shown smaller: in each range the rounding keeps the order, and no number is
rounded past the end of its range. -/
theorem mono (h : Shown x y) (h' : Shown x' y') (hx : 0 ≤ x) (hlt : x < x') : y ≤ y' := by
  rcases hx.eq_or_lt with hzero | hpos
  · rw [h.zero hzero.symm]
    exact h'.nonneg
  rcases lt_or_ge x leastInFull with hx1 | hx1
  · rcases lt_or_ge x' leastInFull with hx' | hx'
    · rw [h.exponent hpos (.inl hx1), h'.exponent (hpos.trans hlt) (.inl hx')]
      exact Decimal.toRat_scientific_mono hpos hlt.le 8
    · exact (h.le_millionth hpos hx1).trans (h'.millionth_le hx')
  rcases le_or_gt x (2 ^ 19) with hx2 | hx2
  · rcases le_or_gt x' (2 ^ 19) with hx' | hx'
    · rw [h.places hx1 hx2, h'.places (hx1.trans hlt.le) hx']
      exact nearestMultiple_mono hlt.le
    · exact (h.le_two_pow_19 hx1 hx2).trans (h'.two_pow_19_le hx')
  rcases lt_or_ge x leastWithExponent with hx3 | hx3
  · rcases lt_or_ge x' leastWithExponent with hx' | hx'
    · refine (lt_of_rounded_lt h'.nonneg ?_).le
      rwa [h.double hx2 hx3, h'.double (hx2.trans hlt) hx']
    · exact (h.le_trillion hx2 hx3).trans (h'.trillion_le hx')
  · rw [h.exponent hpos (.inr hx3), h'.exponent (hpos.trans hlt) (.inr (hx3.trans hlt.le))]
    exact Decimal.toRat_scientific_mono hpos hlt.le 8

end Shown

/-! ## The order of what is shown -/

namespace Display

variable {v : Float} {s : Bool} {m : Nat} {q : Int}

/-- Every finite double is shown as the number for its size, with its sign. -/
theorem exists_shown (hv : ofFloat v = finite s m q) :
    ∃ text y, standard.text v = .ok text ∧ Numeral.written? text = some (withSign s y) ∧
      Shown (size m q) y := by
  by_cases hfull : ShownInFull v
  · obtain ⟨body, y, htext, hwrites, hplaces, hdouble⟩ := exists_writes_of_shownInFull hfull hv
    refine ⟨_, y, htext, by rw [hwrites.written?_sign_append, withSign_and_ne_zero], hwrites.nonneg,
      fun hzero => ?_, fun hpos hrange => ?_, fun _ => hplaces, fun hlow _ => hdouble hlow.le⟩
    · rw [hplaces (by rw [hzero]; norm_num), hzero]
      exact_mod_cast nearestMultiple_intCast (by decide) 0
    · rcases (shownInFull_iff hv).1 hfull with rfl | ⟨hlow, hhigh⟩
      · rw [size_zero] at hpos
        exact absurd hpos (lt_irrefl 0)
      · exact absurd hrange (not_or.2 ⟨not_lt.2 hlow, not_le.2 hhigh⟩)
  · obtain ⟨hm, htext⟩ := text_of_not_shownInFull hfull hv
    have hrange : ∀ {p : Prop}, leastInFull ≤ size m q → size m q < leastWithExponent → p :=
      fun hlow hhigh => absurd ((shownInFull_iff hv).2 (.inr ⟨hlow, hhigh⟩)) hfull
    have hmiddle : leastInFull < 2 ^ 19 ∧ 2 ^ 19 < leastWithExponent := by
      norm_num [leastInFull, leastWithExponent, size]
    exact ⟨_, _, htext, Decimal.written?_exponentForm _ s, toRat_nonneg _,
      fun hzero => absurd hzero (size_pos hm q).ne', fun _ _ => rfl,
      fun hlow hhigh => hrange hlow (hhigh.trans_lt hmiddle.2),
      fun hlow hhigh => hrange (hmiddle.1.le.trans hlow.le) hhigh⟩

/-- The display keeps the order of finite doubles, also where they are shown in different forms. -/
theorem standard_mono (u v : Float) (hu : u.isFinite = true) (hv : v.isFinite = true) (h : u ≤ v) :
    ∃ s t x y, standard.text u = .ok s ∧ standard.text v = .ok t ∧ Numeral.written? s = some x ∧
      Numeral.written? t = some y ∧ x ≤ y := by
  obtain ⟨s, m, q, hu⟩ := (isFinite_iff u).1 hu
  obtain ⟨t, n, r, hv⟩ := (isFinite_iff v).1 hv
  obtain ⟨text, y, htext, hwritten, hshown⟩ := exists_shown hu
  by_cases heq : u = v
  · subst heq
    exact ⟨text, text, _, _, htext, htext, hwritten, hwritten, le_rfl⟩
  obtain ⟨text', y', htext', hwritten', hshown'⟩ := exists_shown hv
  refine ⟨text, text', _, _, htext, htext', hwritten, hwritten', ?_⟩
  -- doubles with the same sign differ in size
  have hne : s = t → size m q ≠ size n r := by
    rintro rfl hsize
    have hc := canonical_of_finite hu
    have hd := canonical_of_finite hv
    obtain ⟨rfl, rfl⟩ := eq_of_size_eq hc.lt hd.lt ⟨hc.lowest_le, hc.full⟩ ⟨hd.lowest_le, hd.full⟩ hsize
    exact heq (eq_of_ofFloat_eq_finite hu hv)
  rw [le_iff hu hv] at h
  have hx := size_nonneg m q
  have hx' := size_nonneg n r
  cases s with
  | false =>
    cases t with
    | false => exact hshown.mono hshown' hx (lt_of_le_of_ne h (hne rfl))
    | true =>
      -- only the two zeros are ordered this way
      have h : size m q ≤ -size n r := h
      rw [hshown.zero (by linarith), hshown'.zero (by linarith)]
      exact neg_zero.ge
  | true =>
    cases t with
    | false => exact (neg_nonpos.2 hshown.nonneg).trans hshown'.nonneg
    | true =>
      have hlt := lt_of_le_of_ne (neg_le_neg_iff.1 h) (hne rfl).symm
      exact neg_le_neg (hshown'.mono hshown hx' hlt)

/-- A number in full below one with an exponent. -/
theorem standard_mono_trillion :
    ∃ s t x y, standard.text 999999999999.9999 = .ok s ∧ standard.text 1e12 = .ok t ∧
      Numeral.written? s = some x ∧ Numeral.written? t = some y ∧ x ≤ y :=
  standard_mono 999999999999.9999 1e12 (by decide +kernel) (by decide +kernel) (by decide +kernel)

end Display

end DeskCalculator
