import DeskCalculator.Proofs.Quotient

/-!
# When a sum is NaN

A sum or a difference of doubles is NaN exactly if an operand is, or if two infinities cancel:
`isNaN_add_iff`, `isNaN_sub_iff`. Rounding is no other way to it, because a number that is too large is
packed as an infinity.
-/

namespace DeskCalculator.Binary64

open Float.Model Float.Model.UnpackedFloat

/-- Packing an infinity keeps its sign. -/
theorem ofFloat_pack_infinity (s : Sign) :
    ofFloat (.ofModel (.pack (.infinity s))) = infinite (isNegative s) := by
  cases s <;> decide

/-- Above the highest exponent a number is packed as an infinity. -/
theorem ofFloat_pack_overflow (s : Sign) {m : Nat} {q : Int} (hm : 0 < m) (hq : 971 < q) :
    ofFloat (.ofModel (.pack (.finite s m q hm))) = infinite (isNegative s) := by
  have hpack : UnpackedFloat.pack Format.binary64 (.finite s m q hm) =
      UnpackedFloat.pack Format.binary64 (.infinity s) := by
    rw [UnpackedFloat.pack]
    refine if_pos ?_
    change 2 ^ 11 ≤ (q + 1023 + 52).toNat + 1
    omega
  rw [← ofFloat_pack_infinity]
  exact congrArg ofFloat (eq_of_toBits_eq (congrArg UInt64.ofBitVec hpack))

/-- What an operation packs is NaN only if the operation gave no number. -/
theorem isNaN_pack_iff (u : UnpackedFloat) :
    (Float.ofModel (.pack u)).isNaN = true ↔ u = .notANumber := by
  rw [isNaN_iff]
  cases u with
  | notANumber => exact iff_of_true (by decide) rfl
  | infinity s => simp [ofFloat_pack_infinity]
  | zero s => simp [ofFloat_pack_zero]
  | finite s m q hm =>
    rcases le_or_gt q 971 with hq | hq
    · obtain ⟨n, r, h⟩ := exists_ofFloat_pack s hm hq
      simp [h]
    · simp [ofFloat_pack_overflow s hm hq]

/-! ## Unpacked operands -/

theorem apply_neg (s : Sign) (n : Int) : (-s).apply n = -s.apply n := by
  cases s with
  | negative => exact (neg_neg n).symm
  | positive => rfl

/-- Rounding gives no NaN. -/
theorem round_ne_notANumber (s : Sign) (m : Nat) (q : Int) :
    UnpackedFloat.round Format.binary64 s m q ≠ .notANumber := by
  simp only [UnpackedFloat.round, roundWithAccuracy]
  split <;> simp

/-- Normalizing gives no NaN. -/
theorem normalize_ne_notANumber (m q : Int) (s : Sign) :
    UnpackedFloat.normalize Format.binary64 m q s ≠ .notANumber := by
  rw [UnpackedFloat.normalize]
  split
  · exact round_ne_notANumber _ _ _
  · simp
  · exact round_ne_notANumber _ _ _

/-- Two operands have no sum if one is no number or if infinities of opposite signs meet. -/
theorem add_eq_notANumber_iff (u v : UnpackedFloat) :
    UnpackedFloat.add Format.binary64 u v = .notANumber ↔
      ofUnpacked u = nan ∨ ofUnpacked v = nan ∨
        ∃ negative, ofUnpacked u = infinite negative ∧ ofUnpacked v = infinite !negative := by
  cases u with
  | notANumber => simp [UnpackedFloat.add, ofUnpacked]
  | infinity s =>
    cases v with
    | infinity t => cases s <;> cases t <;> simp [UnpackedFloat.add, ofUnpacked, isNegative]
    | notANumber | zero | finite => simp [UnpackedFloat.add, ofUnpacked]
  | zero s =>
    cases v with
    | zero t => cases s <;> cases t <;> simp [UnpackedFloat.add, ofUnpacked]
    | notANumber | infinity | finite => simp [UnpackedFloat.add, ofUnpacked]
  | finite s m q hm =>
    cases v with
    | finite t n r hn => simp [UnpackedFloat.add, ofUnpacked, normalize_ne_notANumber]
    | notANumber | infinity | zero => simp [UnpackedFloat.add, ofUnpacked]

/-- Taking an operand away is adding it with the other sign. -/
theorem unpackedSub_eq (u v : UnpackedFloat) :
    UnpackedFloat.sub Format.binary64 u v = UnpackedFloat.add Format.binary64 u v.neg := by
  cases u with
  | notANumber => rfl
  | infinity s | zero s => cases v <;> rfl
  | finite s m q hm =>
    cases v with
    | finite t n r hn =>
      simp only [UnpackedFloat.sub, UnpackedFloat.add, UnpackedFloat.neg, apply_neg, Int.sub_eq_add_neg]
    | notANumber | infinity | zero => rfl

/-- Two operands have no difference if one is no number or if infinities of the same sign meet. -/
theorem sub_eq_notANumber_iff (u v : UnpackedFloat) :
    UnpackedFloat.sub Format.binary64 u v = .notANumber ↔
      ofUnpacked u = nan ∨ ofUnpacked v = nan ∨
        ∃ negative, ofUnpacked u = infinite negative ∧ ofUnpacked v = infinite negative := by
  rw [unpackedSub_eq, add_eq_notANumber_iff]
  cases v <;> simp [UnpackedFloat.neg, ofUnpacked]

/-! ## Doubles -/

/-- A sum is NaN exactly if an operand is or if infinities of opposite signs meet. -/
theorem isNaN_add_iff (x y : Float) :
    (x + y).isNaN = true ↔ x.isNaN = true ∨ y.isNaN = true ∨
      ∃ negative, ofFloat x = infinite negative ∧ ofFloat y = infinite !negative := by
  rw [isNaN_iff x, isNaN_iff y, ofFloat_eq_ofUnpacked x, ofFloat_eq_ofUnpacked y,
    ← add_eq_notANumber_iff]
  exact isNaN_pack_iff _

/-- A difference is NaN exactly if an operand is or if infinities of the same sign meet. -/
theorem isNaN_sub_iff (x y : Float) :
    (x - y).isNaN = true ↔ x.isNaN = true ∨ y.isNaN = true ∨
      ∃ negative, ofFloat x = infinite negative ∧ ofFloat y = infinite negative := by
  rw [isNaN_iff x, isNaN_iff y, ofFloat_eq_ofUnpacked x, ofFloat_eq_ofUnpacked y,
    ← sub_eq_notANumber_iff]
  exact isNaN_pack_iff _

end DeskCalculator.Binary64
