import DeskCalculator.Display
import DeskCalculator.Proofs.Places
import DeskCalculator.Proofs.WrittenValue

/-!
# Evaluating what the display shows

What the standard display shows without an exponent is the text of a double: of the number itself if it is
whole, and of the number rounded to ten places otherwise. Evaluating the text gives that double, and the
display shows it as the same text, because rounding again changes nothing and stays between the two sizes
from which on an exponent is used. What is shown in any other way has no value.
-/

namespace DeskCalculator

open Binary64

/-- The numbers that the standard display shows without an exponent. -/
def ShownInFull (v : Float) : Prop :=
  v == 0 ∨ 1e-6 ≤ v.abs ∧ v.abs < 1e12

instance : DecidablePred ShownInFull := fun v =>
  inferInstanceAs (Decidable (v == 0 ∨ 1e-6 ≤ v.abs ∧ v.abs < 1e12))

/-! ## The two bounds -/

/-- The exact size of the smallest number other than zero that is shown in full. -/
def leastInFull : Rat := size 4722366482869645 (-72)

/-- The exact size from which on an exponent is used. -/
def leastWithExponent : Rat := size 8192000000000000 (-13)

/-- The double of the lower threshold. -/
theorem ofFloat_millionth : ofFloat 1e-6 = finite false 4722366482869645 (-72) := by
  decide +kernel

/-- The double of the upper threshold. -/
theorem ofFloat_trillion : ofFloat 1e12 = finite false 8192000000000000 (-13) := by
  decide +kernel

theorem leastInFull_pos : 0 < leastInFull :=
  size_pos (by decide) _

theorem leastWithExponent_pos : 0 < leastWithExponent :=
  size_pos (by decide) _

/-- The sizes of the numbers that are shown in full. -/
theorem shownInFull_iff {v : Float} {s : Bool} {m : Nat} {q : Int} (hv : ofFloat v = finite s m q) :
    ShownInFull v ↔ m = 0 ∨ leastInFull ≤ size m q ∧ size m q < leastWithExponent := by
  have habs := ofFloat_abs hv
  have hzero : (v == 0) = true ↔ m = 0 := by
    rw [beq_zero_iff, hv]
    constructor
    · rintro ⟨t, r, ht⟩
      exact (Binary64.finite.inj ht).2.1
    · rintro rfl
      exact ⟨s, q, rfl⟩
  rw [ShownInFull, hzero, le_iff ofFloat_millionth habs, lt_iff habs ofFloat_trillion]
  rfl

/-- What is shown in full is finite. -/
theorem exists_of_shownInFull {v : Float} (h : ShownInFull v) : ∃ s m q, ofFloat v = finite s m q := by
  rcases h with h | ⟨hlow, hhigh⟩
  · obtain ⟨s, q, hv⟩ := (beq_zero_iff v).1 h
    exact ⟨s, 0, q, hv⟩
  cases hv : ofFloat v with
  | finite s m q => exact ⟨s, m, q, rfl⟩
  | nan => exact absurd hlow (not_le_of_nan (ofFloat_abs_of_nan hv))
  | infinite s =>
    have := (infinite_le_iff (ofFloat_abs_of_infinite hv) ofFloat_trillion).1 (le_of_lt hhigh)
    exact absurd this Bool.false_ne_true

/-- A finite number is shown with an exponent exactly if it is not shown in full. -/
theorem usesExponent_eq_false_iff {v : Float} {s : Bool} {m : Nat} {q : Int}
    (hv : ofFloat v = finite s m q) : Display.standard.usesExponent v.abs = false ↔ ShownInFull v := by
  have habs := ofFloat_abs hv
  have hzero : ofFloat 0 = finite false 0 lowestExponent := by decide +kernel
  have hupper : Display.standard.exponentUpper ≤ v.abs ↔ leastWithExponent ≤ size m q :=
    le_iff ofFloat_trillion habs
  have hlower : v.abs < Display.standard.exponentLower ↔ size m q < leastInFull :=
    lt_iff habs ofFloat_millionth
  have hpos : 0 < v.abs ↔ 0 < size m q := by
    rw [lt_iff hzero habs, signed, signed, if_neg Bool.false_ne_true, if_neg Bool.false_ne_true, size_zero]
  rw [shownInFull_iff hv, Display.usesExponent]
  simp only [Bool.or_eq_false_iff, Bool.and_eq_false_iff, decide_eq_false_iff_not, hupper, hlower, hpos,
    not_le, not_lt]
  rcases m.eq_zero_or_pos with rfl | hm
  · simp [leastWithExponent_pos]
  · have hsize := size_pos hm q
    constructor
    · rintro ⟨hhigh, hzero | hlow⟩
      · exact absurd hsize (not_lt.2 hzero)
      · exact .inr ⟨hlow, hhigh⟩
    · rintro (rfl | ⟨hlow, hhigh⟩)
      · exact absurd hm (lt_irrefl 0)
      · exact ⟨hhigh, .inr hlow⟩

/-- The smallest number shown in full is also what it is rounded to. -/
theorem rounded_nearestMultiple_leastInFull :
    rounded (nearestMultiple 10 leastInFull) = leastInFull := by
  have hfixed : roundToPlaces 10 1e-6 = 1e-6 := by decide +kernel
  obtain ⟨n, r, hn, hround, -⟩ := exists_roundToPlaces_eq ofFloat_millionth
  rw [hfixed, ofFloat_millionth] at hn
  obtain ⟨-, rfl, rfl⟩ := Binary64.finite.inj hn
  exact hround

/-- A number other than zero that is shown in full is still one after it was rounded. -/
theorem ShownInFull.roundToPlaces {v : Float} {s : Bool} {m : Nat} {q : Int} (h : ShownInFull v)
    (hv : ofFloat v = finite s m q) (hm : m ≠ 0) :
    ∃ n r, ofFloat (roundToPlaces 10 v) = finite s n r ∧ n ≠ 0 ∧ ShownInFull (roundToPlaces 10 v) := by
  obtain ⟨n, r, hn, hround, -⟩ := exists_roundToPlaces_eq hv
  obtain ⟨hlow, hhigh⟩ := ((shownInFull_iff hv).1 h).resolve_left hm
  have hlow' : leastInFull ≤ size n r := by
    rw [← hround, ← rounded_nearestMultiple_leastInFull]
    exact rounded_mono (nearestMultiple_nonneg leastInFull_pos.le) (nearestMultiple_mono hlow)
  have hhigh' : size n r < leastWithExponent := by
    rw [← hround]
    rcases le_or_gt (2 ^ 19) (size m q) with hlarge | hsmall
    · rwa [rounded_nearestMultiple_of_le (canonical_of_finite hv) hlarge]
    · calc rounded (nearestMultiple 10 (size m q)) ≤ rounded (nearestMultiple 10 (2 ^ 19)) :=
            rounded_mono (nearestMultiple_nonneg (size_nonneg m q)) (nearestMultiple_mono hsmall.le)
        _ = 2 ^ 19 := by rw [nearestMultiple_two_pow_19, rounded_two_pow_19]
        _ < leastWithExponent := by norm_num [leastWithExponent, size]
  refine ⟨n, r, hn, ?_, (shownInFull_iff hn).2 (.inr ⟨hlow', hhigh'⟩)⟩
  exact fun hzero => (leastInFull_pos.trans_le hlow').ne' (size_eq_zero_iff.2 hzero)

/-! ## Whole numbers -/

/-- A whole double is finite, and its size is the number. -/
theorem exists_of_whole?_eq_some {v : Float} {s : Bool} {n : Nat} (h : whole? v = some (s, n)) :
    ∃ m q, ofFloat v = finite s m q ∧ size m q = n := by
  rw [whole?] at h
  cases hv : ofFloat v with
  | nan | infinite => simp [hv] at h
  | finite t m q =>
    simp only [hv] at h
    split at h
    next hden =>
      obtain ⟨rfl, rfl⟩ := Prod.mk.inj (Option.some.inj h)
      refine ⟨m, q, rfl, ?_⟩
      have hnum : 0 ≤ (size m q).num := Rat.num_nonneg.2 (size_nonneg m q)
      have hcast : (((size m q).num.toNat : Nat) : Rat) = ((size m q).num : Rat) := by
        exact_mod_cast Int.toNat_of_nonneg hnum
      rw [hcast]
      exact (Rat.den_eq_one_iff _).1 hden |>.symm
    next => cases h

/-- Zero is whole, with its sign. -/
theorem whole?_eq_some_of_zero {v : Float} {s : Bool} {q : Int} (hv : ofFloat v = finite s 0 q) :
    whole? v = some (s, 0) := by
  simp [whole?, hv]

/-- A double that is not whole is not zero. -/
theorem ne_zero_of_whole?_eq_none {v : Float} {s : Bool} {m : Nat} {q : Int}
    (hv : ofFloat v = finite s m q) (h : whole? v = none) : m ≠ 0 := by
  rintro rfl
  rw [whole?_eq_some_of_zero hv] at h
  cases h

variable {mode : AngleMode}

/-- The text of a whole number is worth the number, and zero has no sign in it. -/
theorem evaluate_wholeText {v : Float} {s : Bool} {n : Nat} (h : whole? v = some (s, n)) :
    Expression.evaluate .ieee mode (Display.wholeText s n) = .ok (if n = 0 then 0 else v) := by
  obtain ⟨m, q, hv, hsize⟩ := exists_of_whole?_eq_some h
  rcases Nat.eq_zero_or_pos n with rfl | hn
  · have hzero : nearest false ((0 : Nat) : Rat) = 0 := by decide +kernel
    rw [Display.wholeText, bne_self_eq_false, Bool.and_false, Layout.sign, if_neg Bool.false_ne_true,
      List.nil_append, Expression.evaluate_of_writes (writes_toDigits 0), hzero, if_pos rfl]
  · have hm : m ≠ 0 := by
      rintro rfl
      rw [size_zero] at hsize
      exact hn.ne (by exact_mod_cast hsize)
    have hrounded : rounded (n : Rat) = size m q := by
      rw [← hsize, rounded_size (canonical_of_finite hv)]
    rw [Display.wholeText, bne_iff_ne.2 hn.ne', Bool.and_true, if_neg hn.ne']
    exact Expression.evaluate_sign_append hv (writes_toDigits n) hrounded fun _ => hm

/-- The text of a double other than zero in full is worth the double. -/
theorem evaluate_plain_text {v : Float} {s : Bool} {m : Nat} {q : Int} (hv : ofFloat v = finite s m q)
    (hm : m ≠ 0) : Expression.evaluate .ieee mode (Layout.plain.text v) = .ok v := by
  have htext : Layout.plain.text v =
      String.ofList (Layout.sign s ++ Layout.positionalDigits [] (.shortest m q)) := by
    simp only [Layout.text, hv, Layout.decimal, Layout.plain, or_true, if_true]
  rw [htext]
  exact Expression.evaluate_sign_append hv (writes_positionalDigits _)
    (Decimal.rounded_shortest (canonical_of_finite hv)) fun _ => hm

/-! ## The round trip -/

/-- A whole double is shown as its number. -/
theorem fixedText_of_whole {v : Float} {s : Bool} {n : Nat} (h : whole? v = some (s, n)) :
    Display.standard.fixedText v = Display.wholeText s n := by
  rw [Display.fixedText, h]

/-- A double that is whole neither before rounding nor after it is shown as the rounded one. -/
theorem fixedText_of_fraction {v : Float} (h : whole? v = none)
    (hrounded : whole? (roundToPlaces 10 v) = none) :
    Display.standard.fixedText v = Layout.plain.text (roundToPlaces 10 v) := by
  have hdigits : Display.standard.fixedDigits = 10 := rfl
  rw [Display.fixedText, h, hdigits]
  simp only [hrounded]

/-- A double that rounding makes whole is shown as that number. -/
theorem fixedText_of_rounded_whole {v : Float} {s : Bool} {n : Nat} (h : whole? v = none)
    (hrounded : whole? (roundToPlaces 10 v) = some (s, n)) :
    Display.standard.fixedText v = Display.wholeText s n := by
  have hdigits : Display.standard.fixedDigits = 10 := rfl
  rw [Display.fixedText, h, hdigits]
  simp only [hrounded]

/-- A whole number that is shown in full. -/
theorem ShownInFull.exists_evaluate_of_whole {v : Float} {s : Bool} {n : Nat} (h : ShownInFull v)
    (hw : whole? v = some (s, n)) (mode : AngleMode) :
    ∃ w, Expression.evaluate .ieee mode (Display.standard.fixedText v) = .ok w ∧
      (w = v ∨ v == 0 ∧ w = 0) ∧ ShownInFull w ∧
      Display.standard.fixedText w = Display.standard.fixedText v := by
  rw [fixedText_of_whole hw]
  refine ⟨if n = 0 then 0 else v, evaluate_wholeText hw, ?_⟩
  rcases Nat.eq_zero_or_pos n with rfl | hn
  · have hv : v == 0 := by
      obtain ⟨m, q, hv, hsize⟩ := exists_of_whole?_eq_some hw
      obtain rfl := size_eq_zero_iff.1 (hsize.trans Nat.cast_zero)
      exact (beq_zero_iff v).2 ⟨s, q, hv⟩
    have hzero : whole? 0 = some (false, 0) := by decide +kernel
    rw [if_pos rfl, fixedText_of_whole hzero]
    refine ⟨.inr ⟨hv, rfl⟩, .inl (by decide +kernel), ?_⟩
    rw [Display.wholeText, Display.wholeText, bne_self_eq_false, Bool.and_false, Bool.and_false]
  · rw [if_neg hn.ne']
    exact ⟨.inl rfl, h, fixedText_of_whole hw⟩

/-- A number with a fraction that is shown in full. -/
theorem ShownInFull.exists_evaluate_of_fraction {v : Float} (h : ShownInFull v) (hw : whole? v = none)
    (mode : AngleMode) :
    Expression.evaluate .ieee mode (Display.standard.fixedText v) =
        .ok (DeskCalculator.roundToPlaces 10 v) ∧
      ShownInFull (DeskCalculator.roundToPlaces 10 v) ∧
      Display.standard.fixedText (DeskCalculator.roundToPlaces 10 v) = Display.standard.fixedText v := by
  obtain ⟨s, m, q, hv⟩ := exists_of_shownInFull h
  obtain ⟨n, r, hn, hne, hshown⟩ := h.roundToPlaces hv (ne_zero_of_whole?_eq_none hv hw)
  cases hrounded : whole? (DeskCalculator.roundToPlaces 10 v) with
  | some whole =>
    obtain ⟨t, k⟩ := whole
    have hk : k ≠ 0 := by
      rintro rfl
      obtain ⟨m', q', hv', hsize⟩ := exists_of_whole?_eq_some hrounded
      obtain ⟨rfl, rfl, rfl⟩ := Binary64.finite.inj (hn.symm.trans hv')
      exact hne (size_eq_zero_iff.1 (hsize.trans Nat.cast_zero))
    rw [fixedText_of_rounded_whole hw hrounded, evaluate_wholeText hrounded, if_neg hk]
    exact ⟨rfl, hshown, fixedText_of_whole hrounded⟩
  | none =>
    have htwice := roundToPlaces_roundToPlaces v
    rw [fixedText_of_fraction hw hrounded]
    refine ⟨evaluate_plain_text hn hne, hshown, ?_⟩
    rw [fixedText_of_fraction hrounded (by rwa [htwice]), htwice]

/-- What is shown in full has no exponent. -/
theorem ShownInFull.text_eq {v : Float} (h : ShownInFull v) :
    Display.standard.text v = .ok (Display.standard.fixedText v) := by
  obtain ⟨s, m, q, hv⟩ := exists_of_shownInFull h
  simp [Display.text, hv, (usesExponent_eq_false_iff hv).2 h]

/-- What is shown in full is worth the number if it is whole and the rounded number otherwise, and that is
shown by the same text. -/
theorem ShownInFull.exists_text {v : Float} (h : ShownInFull v) (mode : AngleMode) :
    ∃ text w, Display.standard.text v = .ok text ∧ Expression.evaluate .ieee mode text = .ok w ∧
      ((whole? v).isSome = true → w = v ∨ v == 0 ∧ w = 0) ∧
      ((whole? v).isSome = false → w = DeskCalculator.roundToPlaces 10 v) ∧
      Display.standard.text w = .ok text := by
  cases hw : whole? v with
  | some whole =>
    obtain ⟨w, hvalue, heq, hshown, htext⟩ := h.exists_evaluate_of_whole hw mode
    refine ⟨_, w, h.text_eq, hvalue, fun _ => heq, fun hno => by simp at hno, ?_⟩
    rw [hshown.text_eq, htext]
  | none =>
    obtain ⟨hvalue, hshown, htext⟩ := h.exists_evaluate_of_fraction hw mode
    refine ⟨_, _, h.text_eq, hvalue, fun hno => by simp at hno, fun _ => rfl, ?_⟩
    rw [hshown.text_eq, htext]

/-- What is not shown in full has no value in any arithmetic. -/
theorem exists_text_of_not_shownInFull {v : Float} (h : ¬ ShownInFull v) (a : Arithmetic)
    (mode : AngleMode) :
    ∃ text e, Display.standard.text v = .ok text ∧ Expression.evaluate a mode text = .error e := by
  cases hv : ofFloat v with
  | nan =>
    obtain ⟨-, e, he⟩ := Expression.exists_evaluate_name_eq_error a mode
    exact ⟨"NaN", e, by simp [Display.text, hv], he⟩
  | infinite s =>
    obtain ⟨⟨e, he⟩, -⟩ := Expression.exists_evaluate_name_eq_error a mode
    exact ⟨"Infinity", e, by simp [Display.text, hv], he⟩
  | finite s m q =>
    have hexponent : Display.standard.usesExponent v.abs = true := by
      by_contra hno
      exact h ((usesExponent_eq_false_iff hv).1 (by simpa using hno))
    obtain ⟨e, he⟩ := Expression.exists_evaluate_exponential_eq_error a mode 8 s m q
    refine ⟨exponential 8 s m q, e, ?_, he⟩
    simp only [Display.text, hv, hexponent, if_true]
    rfl

end DeskCalculator
