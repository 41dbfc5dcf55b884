import DeskCalculator.Program.Run
import DeskCalculator.Proofs.ExactOperations
import DeskCalculator.Proofs.Factorial

/-!
# The values of factorials

The factorial goes on multiplying while the factor is at most the argument, and gives up once the product is
infinite. `Multiplies` is this loop with the number of its multiplications and nothing that bounds it.

The factors are small whole numbers and exact, so the whole part of the argument says when they pass it. The
products do not depend on the argument at all: it only selects one of them (`multiplies`). The product up to
171 is infinite, and so the loop has 170 multiplications at most, long before a factor could be too large for
adding one to change it. Products up to `22!` are exact because the odd part of these factorials still fits
into a significand.
-/

namespace DeskCalculator

open Nat (factorial)

namespace Binary64

/-! ## Whole parts -/

/-- The whole part of a number that is not negative; zero for all others. -/
def wholePart : Binary64 → ℕ∞
  | nan => 0
  | infinite negative => if negative then 0 else ⊤
  | finite negative m q => ⌊signed negative m q⌋₊

/-- A positive whole number is at most a double exactly if it is at most its whole part. -/
theorem natCast_le_iff {g x : Float} {j : Nat} (hg : (ofFloat g).toRat? = some (j : Rat)) (hj : 0 < j) :
    g ≤ x ↔ (j : ℕ∞) ≤ (ofFloat x).wholePart := by
  obtain ⟨s, m, q, hg, hvalue⟩ := toRat?_eq_some_iff.1 hg
  cases hx : ofFloat x with
  | nan => simp [not_le_of_nan hx, wholePart, hj.ne']
  | infinite t =>
    rw [le_infinite_iff (by simp [hg]) hx, hg, wholePart]
    cases t <;> simp [hj.ne']
  | finite t n r =>
    rw [le_iff hg hx, hvalue, wholePart, Nat.cast_le, Nat.le_floor_iff' hj.ne']

/-- Of two numbers the larger one has no smaller whole part. -/
theorem wholePart_mono {x y : Float} (h : x ≤ y) : (ofFloat x).wholePart ≤ (ofFloat y).wholePart := by
  cases hx : ofFloat x with
  | nan => exact zero_le
  | infinite s =>
    cases hy : ofFloat y with
    | nan => exact absurd h (not_le_of_nan hy)
    | infinite t =>
      have hle := (le_infinite_iff (by simp [hx]) hy).1 h
      cases s <;> cases t <;> simp_all [wholePart]
    | finite t n r =>
      obtain rfl := (infinite_le_iff hx hy).1 h
      exact zero_le
  | finite s m q =>
    cases hy : ofFloat y with
    | nan => exact absurd h (not_le_of_nan hy)
    | infinite t =>
      have hle := (le_infinite_iff (by simp [hx]) hy).1 h
      cases t <;> simp_all [wholePart]
    | finite t n r => exact Nat.cast_le.2 (Nat.floor_mono ((le_iff hx hy).1 h))

/-! ## The factorials that have a double -/

/-- Factorials up to `18!` have at most 53 bits, and the next four end in enough zeros. -/
theorem representable_factorial {n : Nat} (h : n ≤ 22) : Representable (factorial n : Rat) := by
  rcases Nat.lt_or_ge 18 n with hlarge | hsmall
  · have hzeros : ∀ k ≤ 22, 18 < k →
        2 ^ 52 ≤ factorial k / 2 ^ ((factorial k).log2 - 52) ∧
          factorial k / 2 ^ ((factorial k).log2 - 52) < 2 ^ 53 ∧
          (factorial k).log2 - 52 ≤ 971 ∧
          factorial k / 2 ^ ((factorial k).log2 - 52) * 2 ^ ((factorial k).log2 - 52) = factorial k := by
      decide
    obtain ⟨hlow, hhigh, hk, heq⟩ := hzeros n h hlarge
    rw [← heq]
    exact representable_mul_two_pow hlow hhigh hk
  · refine representable_natCast ((Nat.factorial_le hsmall).trans ?_)
    decide

end Binary64

open Binary64

/-! ## The loop -/

/-- The loop with its number of multiplications and its result: it ends when the factor is above the limit,
and right after a multiplication that gives an infinity. -/
inductive Multiplies (limit : Float) : Nat → Float → Float → Float → Prop
  | stop {product factor : Float} (h : ¬ factor ≤ limit) : Multiplies limit 0 product factor product
  | overflow {product factor : Float} (h : factor ≤ limit) (hinfinite : (product * factor).isInf = true) :
      Multiplies limit 1 product factor (product * factor)
  | next {product factor result : Float} {n : Nat} (h : factor ≤ limit)
      (hnext : (product * factor).isInf = false)
      (rest : Multiplies limit n (product * factor) (factor + 1) result) :
      Multiplies limit (n + 1) product factor result

/-- A bound that is not below the number of multiplications does not change the product. -/
theorem Multiplies.risingProduct_eq {limit product factor result : Float} {n : Nat}
    (h : Multiplies limit n product factor result) {steps : Nat} (hn : n ≤ steps) :
    risingProduct limit steps product factor = result := by
  induction h generalizing steps with
  | stop h =>
    cases steps with
    | zero => rfl
    | succ steps => rw [risingProduct, if_neg h]
  | overflow h hinfinite =>
    obtain ⟨steps, rfl⟩ := Nat.exists_eq_add_of_le' hn
    simp only [risingProduct, if_pos h, if_pos hinfinite]
  | next h hnext rest ih =>
    obtain ⟨steps, rfl⟩ := Nat.exists_eq_add_of_le' (Nat.one_le_of_lt hn)
    simp only [risingProduct, if_pos h, hnext, Bool.false_eq_true, if_false]
    exact ih (Nat.le_of_succ_le_succ hn)

/-! ## Factors and products -/

/-- The factor after a number of multiplications. -/
def factorAfter : Nat → Float
  | 0 => 2
  | k + 1 => factorAfter k + 1

/-- The product after a number of multiplications. -/
def productAfter : Nat → Float
  | 0 => 1
  | k + 1 => productAfter k * factorAfter k

theorem toRat?_one : (ofFloat 1).toRat? = some ((1 : Nat) : Rat) := by
  have hone : ofFloat 1 = finite false (2 ^ 52) (-52) := by decide +kernel
  rw [hone, toRat?]
  norm_num [signed, size]

/-- Factors are exact up to the number from which adding one gives nothing new. -/
theorem toRat?_factorAfter {k : Nat} (hk : k + 2 ≤ 2 ^ 53) :
    (ofFloat (factorAfter k)).toRat? = some ((k + 2 : Nat) : Rat) := by
  induction k with
  | zero =>
    have htwo : ofFloat 2 = finite false (2 ^ 52) (-51) := by decide +kernel
    rw [factorAfter, htwo, toRat?]
    norm_num [signed, size]
  | succ k ih =>
    have hsum : ((k + 1 + 2 : Nat) : Rat) = ((k + 2 : Nat) : Rat) + ((1 : Nat) : Rat) := by
      push_cast
      ring
    rw [factorAfter, hsum]
    refine toRat?_add (ih (by omega)) toRat?_one ?_
    rw [← hsum]
    exact representable_natCast hk

/-- Products are exact up to the last one that needs no rounding. -/
theorem toRat?_productAfter {k : Nat} (hk : k ≤ 21) :
    (ofFloat (productAfter k)).toRat? = some (factorial (k + 1) : Rat) := by
  induction k with
  | zero => exact toRat?_one
  | succ k ih =>
    have hproduct : (factorial (k + 1 + 1) : Rat) = factorial (k + 1) * ((k + 2 : Nat) : Rat) := by
      rw [Nat.factorial_succ (k + 1), Nat.cast_mul, mul_comm]
    rw [productAfter, hproduct]
    refine toRat?_mul (ih (by omega)) (toRat?_factorAfter (by omega)) ?_
    rw [← hproduct]
    exact representable_factorial (by omega)

/-- The products grow, and the one with the last factor 171 is the first that is not finite. -/
theorem productAfter_grows :
    (∀ k < 170, (productAfter k).isFinite = true ∧ productAfter k ≤ productAfter (k + 1)) ∧
      productAfter 170 = infinity false := by
  decide +kernel

/-- No product on the way is NaN. -/
theorem ofFloat_productAfter_ne_nan {k : Nat} (hk : k ≤ 170) : ofFloat (productAfter k) ≠ nan := by
  rcases hk.eq_or_lt with rfl | hlt
  · rw [productAfter_grows.2, ofFloat_infinity]
    simp
  · obtain ⟨s, m, q, h⟩ := (isFinite_iff _).1 (productAfter_grows.1 k hlt).1
    simp [h]

/-- Later products are no smaller. -/
theorem productAfter_mono {i k : Nat} (hik : i ≤ k) (hk : k ≤ 170) : productAfter i ≤ productAfter k := by
  induction k, hik using Nat.le_induction with
  | base => exact le_refl_of_ne_nan (ofFloat_productAfter_ne_nan hk)
  | succ k hik ih =>
    exact Binary64.le_trans (ih (by omega)) (productAfter_grows.1 k (by omega)).2

/-! ## How long the loop is -/

/-- How often the factorial of a number multiplies. -/
def multiplications (x : Float) : Nat :=
  min (WithTop.untopD 171 (ofFloat x).wholePart) 171 - 1

/-- No factorial multiplies more often than 170 times. -/
theorem multiplications_le (x : Float) : multiplications x ≤ 170 := by
  rw [multiplications]
  omega

/-- A factorial multiplies once less than its whole part says, as far as 171. -/
theorem multiplications_eq_of_wholePart {x : Float} {n : Nat} (h : (ofFloat x).wholePart = n) :
    multiplications x = min n 171 - 1 := by
  rw [multiplications, h]
  rfl

/-- From 171 on every factorial multiplies 170 times. -/
theorem multiplications_eq_of_le {x : Float} (h : 171 ≤ (ofFloat x).wholePart) :
    multiplications x = 170 := by
  cases hw : (ofFloat x).wholePart with
  | top =>
    rw [multiplications, hw]
    rfl
  | coe n =>
    rw [hw] at h
    have hn : 171 ≤ n := by exact_mod_cast h
    rw [multiplications_eq_of_wholePart hw]
    omega

/-- There is another multiplication exactly if the factor is at most the argument and not beyond 171. -/
theorem lt_multiplications_iff {x : Float} {k : Nat} :
    k < multiplications x ↔ factorAfter k ≤ x ∧ k < 170 := by
  by_cases hk : k < 170
  · rw [natCast_le_iff (toRat?_factorAfter (by omega)) (by omega), and_iff_left hk]
    cases hw : (ofFloat x).wholePart with
    | top =>
      have htop : multiplications x = 170 := multiplications_eq_of_le (by rw [hw]; exact le_top)
      simp [htop, hk]
    | coe n =>
      rw [multiplications_eq_of_wholePart hw, Nat.cast_le]
      omega
  · have hle := multiplications_le x
    simp only [hk, and_false, iff_false]
    omega

/-- From any of its factors on, the loop goes to the product that the argument selects. -/
theorem multiplies_from {x : Float} {k n : Nat} (hk : k < 170) (h : k + n = multiplications x) :
    Multiplies x n (productAfter k) (factorAfter k) (productAfter (multiplications x)) := by
  -- the induction is on how many multiplications are left; when none is, the factor is above the argument
  induction n generalizing k with
  | zero =>
    obtain rfl : k = multiplications x := h
    refine .stop fun hle => ?_
    exact lt_irrefl _ (lt_multiplications_iff.2 ⟨hle, hk⟩)
  | succ n ih =>
    have hle := (lt_multiplications_iff.1 (show k < multiplications x by omega)).1
    have hbound := multiplications_le x
    have hfactor : factorAfter k + 1 = factorAfter (k + 1) := rfl
    have hproduct : productAfter k * factorAfter k = productAfter (k + 1) := rfl
    rcases Nat.lt_or_ge (k + 1) 170 with hlt | hge
    · obtain ⟨s, m, q, hfinite⟩ := (isFinite_iff _).1 (productAfter_grows.1 (k + 1) hlt).1
      have hnext : (productAfter (k + 1)).isInf = false := by
        rw [← Bool.not_eq_true, isInf_iff, hfinite]
        simp
      exact .next hle (hproduct ▸ hnext) (ih hlt (by omega))
    · obtain rfl : n = 0 := by omega
      rw [← h]
      obtain rfl : k = 169 := by omega
      -- the next product is infinite, so this is the last multiplication
      refine .overflow hle ?_
      rw [hproduct, productAfter_grows.2]
      exact (isInf_iff _).2 ⟨false, ofFloat_infinity false⟩

/-- The loop runs for the number of multiplications that the argument asks for. -/
theorem multiplies (x : Float) :
    Multiplies x (multiplications x) 1 2 (productAfter (multiplications x)) :=
  multiplies_from (by decide) (Nat.zero_add _)

/-- No factorial is cut off: with more multiplications it would be the same. -/
theorem risingProduct_eq_of_le {steps : Nat} (h : factorialSteps ≤ steps) (limit : Float) :
    risingProduct limit steps 1 2 = risingProduct limit factorialSteps 1 2 := by
  have hbound : multiplications limit ≤ factorialSteps := multiplications_le limit
  rw [(multiplies limit).risingProduct_eq hbound, (multiplies limit).risingProduct_eq (hbound.trans h)]

/-- The factorial of a larger number multiplies no less often. -/
theorem multiplications_mono {x y : Float} (h : x ≤ y) : multiplications x ≤ multiplications y := by
  by_contra hlt
  obtain ⟨hfactor, hk⟩ := lt_multiplications_iff.1 (not_le.1 hlt)
  have hvalue : (ofFloat (factorAfter (multiplications y))).toRat? = _ :=
    toRat?_factorAfter (by omega)
  have hle : factorAfter (multiplications y) ≤ y :=
    (natCast_le_iff hvalue (by omega)).2
      (((natCast_le_iff hvalue (by omega)).1 hfactor).trans (wholePart_mono h))
  exact lt_irrefl _ (lt_multiplications_iff.2 ⟨hle, hk⟩)

/-! ## The factorial -/

/-- The factorial refuses what is at most minus one. -/
theorem factorial?_eq_none_iff_le (x : Float) : factorial? x = none ↔ x ≤ -1 := by
  by_cases hnan : ofFloat x = nan
  · rw [factorial?, if_pos ((isNaN_iff x).2 hnan)]
    simp [nan_not_le hnan]
  · rw [factorial?_eq_none_iff, le_neg_one_iff hnan]

/-- A factorial that is not refused is the product that the argument selects. -/
theorem factorial?_eq_productAfter {x : Float} (hnan : x.isNaN = false) (h : ¬ x ≤ -1) :
    factorial? x = some (productAfter (multiplications x)) := by
  have hproduct : risingProduct x factorialSteps 1 2 = productAfter (multiplications x) :=
    (multiplies x).risingProduct_eq (multiplications_le x)
  rw [factorial?, hnan, if_neg Bool.false_ne_true, if_neg h, hproduct]

/-- What the factorial of a number is, given how large its whole part is. -/
structure AgreesWithFactorial (r : Float) (n : ℕ∞) : Prop where
  exact : ∀ k : Nat, k ≤ 22 → n = k → (ofFloat r).toRat? = some (factorial k : Rat)
  finite : n ≤ 170 → r.isFinite = true
  infinite : 171 ≤ n → r = infinity false

/-- The product that the argument selects is right for the whole part of the argument. -/
theorem agreesWithFactorial (x : Float) :
    AgreesWithFactorial (productAfter (multiplications x)) (ofFloat x).wholePart where
  exact k hk hn := by
    rw [multiplications_eq_of_wholePart hn, min_eq_left (by omega)]
    cases k with
    | zero => exact toRat?_productAfter (by decide)
    | succ k => exact toRat?_productAfter (by omega)
  finite hn := by
    obtain ⟨n, hw⟩ := ENat.ne_top_iff_exists.1 (ne_top_of_le_ne_top (by simp) hn)
    rw [← hw] at hn
    have hn : n ≤ 170 := by exact_mod_cast hn
    refine (productAfter_grows.1 _ ?_).1
    rw [multiplications_eq_of_wholePart hw.symm]
    omega
  infinite hn := by rw [multiplications_eq_of_le hn, productAfter_grows.2]

/-- A call of the factorial raises the error of a negative argument exactly if it is at most -1. -/
theorem exec_fact_eq_error_iff (mode : AngleMode) (x : Float) (stack : List Float) :
    Program.exec .ieee mode (x :: stack) (.call "fact") = .error (.negativeFactorial x) ↔ x ≤ -1 := by
  have hname : Function.ofName? "fact" = some .fact := by rfl
  rw [← factorial?_eq_none_iff_le]
  cases hx : factorial? x with
  | none =>
    have happly : Arithmetic.ieee.apply mode x .fact = none := hx
    simp [Program.exec, hname, happly]
  | some y =>
    have happly : Arithmetic.ieee.apply mode x .fact = some y := hx
    simp [Program.exec, hname, happly]

/-- The factorial of every double ends and is right. It refuses what is at most -1, and the factorial of NaN
alone is NaN. For all others the loop has ended after at most 170 multiplications, with what
`AgreesWithFactorial` says of the whole part; and the factorials of larger numbers are not smaller. -/
theorem factorial?_total (x : Float) :
    (factorial? x = none ↔ x ≤ -1) ∧
      (∀ mode stack, Program.exec .ieee mode (x :: stack) (.call "fact") =
        .error (.negativeFactorial x) ↔ x ≤ -1) ∧
      ((∃ r, factorial? x = some r ∧ r.isNaN = true) ↔ x.isNaN = true) ∧
      (x.isNaN = false → ¬ x ≤ -1 →
        ∃ r n, factorial? x = some r ∧ n ≤ 170 ∧ Multiplies x n 1 2 r ∧
          AgreesWithFactorial r (ofFloat x).wholePart) ∧
      (-1 < x → ∀ y, x ≤ y →
        ∃ r t, factorial? x = some r ∧ factorial? y = some t ∧ r ≤ t) := by
  refine ⟨factorial?_eq_none_iff_le x, fun mode stack => exec_fact_eq_error_iff mode x stack, ?_, ?_, ?_⟩
  · refine ⟨?_, fun hnan => ⟨x, by rw [factorial?, if_pos hnan], hnan⟩⟩
    rintro ⟨r, hr, hnan⟩
    by_contra hx
    rw [Bool.not_eq_true] at hx
    have hsome : ¬ x ≤ -1 := by
      rw [← factorial?_eq_none_iff_le, hr]
      exact Option.some_ne_none r
    rw [factorial?_eq_productAfter hx hsome] at hr
    obtain rfl := Option.some.inj hr
    exact ofFloat_productAfter_ne_nan (multiplications_le x) ((isNaN_iff _).1 hnan)
  · intro hx h
    exact ⟨_, multiplications x, factorial?_eq_productAfter hx h, multiplications_le x, multiplies x,
      agreesWithFactorial x⟩
  · intro hlt y hxy
    obtain ⟨hx, h⟩ := (lt_iff_not_le (by decide +kernel)).1 hlt
    have hy : y.isNaN = false := by
      rw [← Bool.not_eq_true, isNaN_iff]
      exact fun hnan => not_le_of_nan hnan hxy
    exact ⟨_, _, factorial?_eq_productAfter hx h,
      factorial?_eq_productAfter hy fun hle => h (Binary64.le_trans hxy hle),
      productAfter_mono (multiplications_mono hxy) (multiplications_le y)⟩

/-- The factorial of 22.5 is `22!`, the one of `2 ^ 60` is infinite, minus one and minus infinity have none,
and the one of -0.5 is not above the one of infinity. -/
theorem factorial?_total_far_apart :
    (factorial? (-1) = none ∧ factorial? (infinity true) = none) ∧
      (∃ r n, factorial? 22.5 = some r ∧ n ≤ 170 ∧ Multiplies 22.5 n 1 2 r ∧
        (ofFloat r).toRat? = some (factorial 22 : Rat)) ∧
      (∃ r n, factorial? 1152921504606846976 = some r ∧ n ≤ 170 ∧
        Multiplies 1152921504606846976 n 1 2 r ∧ r = infinity false) ∧
      ∃ r t, factorial? (-0.5) = some r ∧ factorial? (infinity false) = some t ∧ r ≤ t := by
  refine ⟨⟨(factorial?_total (-1)).1.2 (by decide +kernel),
    (factorial?_total (infinity true)).1.2 (by decide +kernel)⟩, ?_, ?_, ?_⟩
  · obtain ⟨r, n, hr, hn, hruns, hvalue⟩ :=
      (factorial?_total 22.5).2.2.2.1 (by decide +kernel) (by decide +kernel)
    have hx : ofFloat 22.5 = finite false (45 * 2 ^ 47) (-48) := by decide +kernel
    have hwhole : (ofFloat 22.5).wholePart = (22 : Nat) := by
      rw [hx, wholePart, Nat.cast_inj, Nat.floor_eq_iff] <;> norm_num [signed, size]
    exact ⟨r, n, hr, hn, hruns, hvalue.exact 22 le_rfl hwhole⟩
  · obtain ⟨r, n, hr, hn, hruns, hvalue⟩ :=
      (factorial?_total 1152921504606846976).2.2.2.1 (by decide +kernel) (by decide +kernel)
    have hx : ofFloat 1152921504606846976 = finite false (2 ^ 52) 8 := by decide +kernel
    have hwhole : 171 ≤ (ofFloat 1152921504606846976).wholePart := by
      have hfloor : 171 ≤ ⌊signed false (2 ^ 52) 8⌋₊ := Nat.le_floor (by norm_num [signed, size])
      rw [hx, wholePart]
      exact_mod_cast hfloor
    exact ⟨r, n, hr, hn, hruns, hvalue.infinite hwhole⟩
  · exact (factorial?_total (-0.5)).2.2.2.2 (by decide +kernel) _ (by decide +kernel)

end DeskCalculator
