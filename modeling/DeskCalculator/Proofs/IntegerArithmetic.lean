import DeskCalculator.Proofs.DisplayRoundTrip
import DeskCalculator.Proofs.ExactOperations

/-!
# Integer arithmetic

`Infix.integer?` evaluates an expression over the integers, if it is written with runs of digits, `+`,
`-`, `*`, unary minus and parentheses and all its intermediate results are below `10 ^ 12` in size. The
doubles that the calculator computes with then stand for the same integers at every node
(`Infix.value_standsFor`), and the display shows the result as the numeral of the integer
(`outcomeText_evaluate_integer`). A zero may be the negative one on the way, as in `0 * -5`, but the
display shows no sign on it.

All that this needs of the operations is that they are exact on integers, as those on doubles are
(`Arithmetic.ieee_exactOnIntegers`).
-/

namespace DeskCalculator

open Binary64

/-- Whether a double stands for an integer. -/
def IsInteger (x : Float) (n : Int) : Prop :=
  (ofFloat x).toRat? = some (n : Rat)

instance (x : Float) (n : Int) : Decidable (IsInteger x n) :=
  inferInstanceAs (Decidable (_ = _))

/-- Integers are added, subtracted and multiplied exactly as long as the result is at most `2 ^ 53` in
size. -/
structure Arithmetic.ExactOnIntegers (a : Arithmetic) : Prop where
  add {x y : Float} {m n : Int} :
    IsInteger x m → IsInteger y n → |m + n| ≤ 2 ^ 53 → IsInteger (a.add x y) (m + n)
  sub {x y : Float} {m n : Int} :
    IsInteger x m → IsInteger y n → |m - n| ≤ 2 ^ 53 → IsInteger (a.sub x y) (m - n)
  mul {x y : Float} {m n : Int} :
    IsInteger x m → IsInteger y n → |m * n| ≤ 2 ^ 53 → IsInteger (a.mul x y) (m * n)

/-- The operations of doubles are exact on integers. -/
theorem Arithmetic.ieee_exactOnIntegers : Arithmetic.ieee.ExactOnIntegers where
  add hx hy h := by
    have hr := representable_intCast h
    rw [IsInteger]
    rw [Int.cast_add] at hr ⊢
    exact toRat?_add hx hy hr
  sub hx hy h := by
    have hr := representable_intCast h
    rw [IsInteger]
    rw [Int.cast_sub] at hr ⊢
    exact toRat?_sub hx hy hr
  mul hx hy h := by
    have hr := representable_intCast h
    rw [IsInteger]
    rw [Int.cast_mul] at hr ⊢
    exact toRat?_mul hx hy hr

/-! ## Expressions over the integers -/

namespace Infix

/-- An integer below `10 ^ 12` in size. -/
def belowTrillion? (n : Int) : Option Int :=
  if |n| < 10 ^ 12 then some n else none

/-- The integer that a tree stands for; none if it uses anything but runs of digits, `+`, `-`, `*`, unary
minus and parentheses, or if a literal or an intermediate result is too large. -/
def integer? {n : Nonterminal} : Infix n → Option Int
  | add l r => do belowTrillion? ((← l.integer?) + (← r.integer?))
  | sub l r => do belowTrillion? ((← l.integer?) - (← r.integer?))
  | mul l r => do belowTrillion? ((← l.integer?) * (← r.integer?))
  | neg e => do belowTrillion? (0 - (← e.integer?))
  | ofProduct e | ofPower e | ofSigned e | ofPrimary e => e.integer?
  | number l =>
    if l.text.toList.all Char.isDigit then belowTrillion? (Numeral.ofDigits l.text.toList) else none
  | group e => e.integer?
  | div _ _ | pow _ _ | call _ _ => none

/-- An integer below a trillion is one of absolute value below `10 ^ 12`. -/
theorem belowTrillion?_eq_some_iff {m n : Int} :
    belowTrillion? m = some n ↔ m = n ∧ |m| < 10 ^ 12 := by
  rw [belowTrillion?, Option.ite_none_right_eq_some, Option.some.injEq, and_comm]

end Infix

/-- If there is an integer, it is below `10 ^ 12` in size and the outcome stands for it. -/
def Outcome.StandsFor (o : Outcome) (i : Option Int) : Prop :=
  ∀ n ∈ i, |n| < 10 ^ 12 ∧ ∃ x, o = .ok x ∧ IsInteger x n

namespace Infix

variable {a : Arithmetic} {mode : AngleMode}

/-- An operation that is exact on integers keeps outcomes standing for integers. -/
theorem standsFor_both {f : Float → Float → Float} {g : Int → Int → Int} {u v : Outcome}
    {i j : Option Int}
    (hexact : ∀ {x y m n}, IsInteger x m → IsInteger y n → |g m n| ≤ 2 ^ 53 → IsInteger (f x y) (g m n))
    (hu : u.StandsFor i) (hv : v.StandsFor j) :
    (Outcome.both f u v).StandsFor (do belowTrillion? (g (← i) (← j))) := by
  intro n hn
  obtain ⟨m, hi, k, hj, hn⟩ : ∃ m, i = some m ∧ ∃ k, j = some k ∧ belowTrillion? (g m k) = some n := by
    simpa [Option.bind_eq_some_iff] using hn
  obtain ⟨rfl, hbound⟩ := belowTrillion?_eq_some_iff.1 hn
  obtain ⟨-, x, rfl, hx⟩ := hu m hi
  obtain ⟨-, y, rfl, hy⟩ := hv k hj
  exact ⟨hbound, f x y, rfl, hexact hx hy (hbound.le.trans (by norm_num))⟩

/-- A run of digits is worth its number exactly. -/
theorem standsFor_literalValue (l : Literal) :
    (literalValue l).StandsFor (integer? (.number l)) := by
  intro n hn
  simp only [integer?, Option.mem_def, Option.ite_none_right_eq_some, belowTrillion?_eq_some_iff,
    List.all_eq_true] at hn
  obtain ⟨hdigits, rfl, hbound⟩ := hn
  have hwrites : Writes l.text.toList (Numeral.ofDigits l.text.toList) := by
    refine ⟨l.text.toList, [], ?_, by rwa [List.append_nil], .inr ⟨rfl, rfl⟩, by simp⟩
    intro hnil
    obtain ⟨c, hc, -⟩ := l.digit
    rw [hnil] at hc
    cases hc
  refine ⟨hbound, nearest false (Numeral.ofDigits l.text.toList), ?_, ?_⟩
  · simp only [literalValue, hwrites.value?_eq]
  generalize Numeral.ofDigits l.text.toList = k at hbound
  rw [Nat.abs_cast] at hbound
  rw [IsInteger, Int.cast_natCast]
  exact toRat?_nearest (Nat.cast_nonneg k) (representable_natCast (by omega))

/-- The doubles that a tree is evaluated with stand for the integers of its nodes. -/
theorem value_standsFor (ha : a.ExactOnIntegers) {n : Nonterminal} (t : Infix n) :
    (t.value a mode).StandsFor t.integer? := by
  have hzero : Outcome.StandsFor (.ok 0) (some 0) := by
    intro n hn
    obtain rfl := Option.some.inj hn
    exact ⟨by decide, 0, rfl, by decide +kernel⟩
  induction t with
  | add l r ihl ihr => exact standsFor_both ha.add ihl ihr
  | sub l r ihl ihr => exact standsFor_both ha.sub ihl ihr
  | mul l r ihl ihr => exact standsFor_both ha.mul ihl ihr
  | neg e ih => exact standsFor_both ha.sub hzero ih
  | ofProduct e ih | ofPower e ih | ofSigned e ih | ofPrimary e ih | group e ih => exact ih
  | number l => exact standsFor_literalValue l
  | div | pow | call => exact fun n hn => by cases hn

end Infix

/-! ## The display -/

/-- The absolute value of a signed number is its size. -/
theorem abs_signed (s : Bool) (m : Nat) (q : Int) : |signed s m q| = size m q := by
  cases s <;> simp [signed, abs_of_nonneg (size_nonneg m q)]

/-- A double whose size is a whole number is whole. -/
theorem whole?_eq_some_of_size_eq {x : Float} {s : Bool} {m k : Nat} {q : Int}
    (hx : ofFloat x = finite s m q) (h : size m q = k) : whole? x = some (s, k) := by
  simp [whole?, hx, h]

/-- The text of a whole number is the numeral of the integer. -/
theorem wholeText_natAbs {s : Bool} {m : Nat} {q : Int} {n : Int} (h : signed s m q = n) :
    Display.wholeText s n.natAbs = toString n := by
  have hsize := size_nonneg m q
  cases n with
  | ofNat k =>
    have hsign : (s && k != 0) = false := by
      cases s with
      | false => rfl
      | true =>
        -- the negative of a size can only be the integer zero
        rw [signed, if_pos rfl] at h
        have hk : (k : Rat) ≤ 0 := by
          rw [Int.ofNat_eq_natCast, Int.cast_natCast] at h
          linarith
        have hk : k ≤ 0 := by exact_mod_cast hk
        simp [Nat.le_zero.1 hk]
    rw [Display.wholeText, Int.ofNat_eq_natCast, Int.natAbs_natCast, hsign]
    rfl
  | negSucc k =>
    have hs : s = true := by
      by_contra hs
      rw [signed, if_neg hs] at h
      have : (Int.negSucc k : Rat) < 0 := by exact_mod_cast Int.negSucc_lt_zero k
      linarith
    have hnumeral : toString (Int.negSucc k) = "-" ++ Nat.repr (k + 1) := by rfl
    rw [Display.wholeText, hs, Int.natAbs_negSucc, hnumeral, ← String.toList_inj]
    simp [Layout.sign, Nat.repr]

/-- An integer below a trillion is shown as its digits. -/
theorem text_of_isInteger {x : Float} {n : Int} (h : IsInteger x n) (hn : |n| < 10 ^ 12) :
    Display.standard.text x = .ok (toString n) := by
  obtain ⟨s, m, q, hx, hsigned⟩ := toRat?_eq_some_iff.1 h
  have hsize : size m q = n.natAbs := by
    rw [← abs_signed s, hsigned, Nat.cast_natAbs, Int.cast_abs]
  have hshown : ShownInFull x := by
    rw [shownInFull_iff hx, hsize]
    rcases n.natAbs.eq_zero_or_pos with hzero | hpos
    · rw [hzero, Nat.cast_zero, size_eq_zero_iff] at hsize
      exact .inl hsize
    · have hone : (1 : Rat) ≤ n.natAbs := by exact_mod_cast hpos
      have hlt : (n.natAbs : Rat) < 10 ^ 12 := by
        rw [Int.abs_eq_natAbs] at hn
        exact_mod_cast hn
      refine .inr ⟨le_trans ?_ hone, hlt.trans_eq ?_⟩
      · norm_num [leastInFull, size]
      · norm_num [leastWithExponent, size]
  rw [hshown.text_eq, fixedText_of_whole (whole?_eq_some_of_size_eq hx hsize), wholeText_natAbs hsigned]

/-- Integer arithmetic is exact from text to text: an expression with runs of digits, `+`, `-`, `*`, unary
minus and parentheses in which everything stays below `10 ^ 12` in size is shown as the numeral of the
integer that it stands for. -/
theorem outcomeText_evaluate_integer {a : Arithmetic} (ha : a.ExactOnIntegers) {t : Infix .sum} {n : Int}
    (h : t.integer? = some n) {s : String} (hs : lexemes s = t.yield) (mode : AngleMode) :
    Display.standard.outcomeText (Expression.evaluate a mode s) = .ok (toString n) := by
  have hvalue : (t.value a mode).StandsFor t.integer? := t.value_standsFor ha
  obtain ⟨hbound, x, hx, hinteger⟩ := hvalue n h
  rw [Expression.evaluate_of_lexemes_eq hs, hx]
  exact text_of_isInteger hinteger hbound

/-- The derivation of `(999999999999 - 007) * (4 - 4) * -2`, whose value is the negative zero. -/
def negativeZero : Infix .sum :=
  let number (text : String) (hnumeric : text.toList.all Token.isNumeric = true)
      (hdigit : text.toList.any Char.isDigit = true) : Infix .signed :=
    .ofPrimary (.number ⟨text, List.all_eq_true.1 hnumeric, List.any_eq_true.1 hdigit⟩)
  let seven : Infix .power := .ofSigned (number "007" (by decide +kernel) (by decide +kernel))
  let four : Infix .power := .ofSigned (number "4" (by decide +kernel) (by decide +kernel))
  let large : Infix .power := .ofSigned (number "999999999999" (by decide +kernel) (by decide +kernel))
  let two : Infix .signed := number "2" (by decide +kernel) (by decide +kernel)
  let left : Infix .power :=
    .ofSigned (.ofPrimary (.group (.sub (.ofProduct (.ofPower large)) (.ofPower seven))))
  let right : Infix .power :=
    .ofSigned (.ofPrimary (.group (.sub (.ofProduct (.ofPower four)) (.ofPower four))))
  .ofProduct (.mul (.mul (.ofPower left) right) (.ofSigned (.neg two)))

/-- Zero times minus two is shown without a sign, among literals with leading zeros. -/
theorem outcomeText_evaluate_integer_negativeZero :
    Arithmetic.ieee.ExactOnIntegers ∧ negativeZero.integer? = some 0 ∧
      lexemes "(999999999999 - 007) * (4 - 4) * -2" = negativeZero.yield ∧
      Display.standard.outcomeText
        (Expression.evaluate .ieee .radians "(999999999999 - 007) * (4 - 4) * -2") = .ok "0" := by
  have hinteger : negativeZero.integer? = some 0 := by decide +kernel
  have hs : lexemes "(999999999999 - 007) * (4 - 4) * -2" = negativeZero.yield := by decide +kernel
  exact ⟨Arithmetic.ieee_exactOnIntegers, hinteger, hs,
    outcomeText_evaluate_integer Arithmetic.ieee_exactOnIntegers hinteger hs .radians⟩

end DeskCalculator
