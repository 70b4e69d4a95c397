import Mathlib.Algebra.Order.Field.Basic
import Mathlib.Algebra.Order.Ring.Rat
import Montage.Proofs.Number.Order

/-!
# Quantities that are not below zero

Times are not below zero, and adding times does not lead below it: sums of what is not below zero
are not, larger and smaller ones of them are not, and rounding to the binary grid keeps the sign.
A zero stays without a sign as long as no negative zero comes in.
-/

set_option autoImplicit false

namespace Montage
namespace Quantity

/-- Zero or above. -/
theorem le_zero_iff {x : Quantity} : Quantity.le (.finite 0) x = true ↔
    (∃ q : Rat, 0 ≤ q ∧ x = .finite q) ∨ x = .negativeZero ∨ x = .infinite false := by
  rcases x with q | - | (- | -) | -
  · simp only [le, lt, eq, Bool.or_eq_true, decide_eq_true_eq, beq_iff_eq]
    simp [value, le_iff_lt_or_eq]
  · simp [le, lt, eq, value]
  · simp [le, lt]
  · simp [le, lt, eq]
  · simp [le, lt, eq]

/-- Above zero. -/
theorem lt_zero_iff {x : Quantity} : Quantity.lt (.finite 0) x = true ↔
    (∃ q : Rat, 0 < q ∧ x = .finite q) ∨ x = .infinite false := by
  rcases x with q | - | (- | -) | -
  · simp only [lt, decide_eq_true_eq]
    simp [value]
  · simp only [lt, decide_eq_true_eq]
    simp [value]
  · simp [lt]
  · simp [lt]
  · simp [lt]

/-- The larger one of two quantities is not below zero if the first one is not. -/
theorem le_zero_max {x y : Quantity} (hx : Quantity.le (.finite 0) x = true) :
    Quantity.le (.finite 0) (x.max y) = true := by
  rw [max]
  split
  · rename_i hlt
    exact le_trans hx (le_of_lt hlt)
  · exact hx

/-- The quantity with a zero that has no sign. -/
def unsigned : Quantity → Quantity
  | .negativeZero => .finite 0
  | x => x

theorem unsigned_eq_undefined {x : Quantity} : x.unsigned = .undefined ↔ x = .undefined := by
  cases x <;> simp [unsigned]

/-- The sign of a zero does not count in a comparison. -/
theorem unsigned_le (x y : Quantity) : x.unsigned.le y.unsigned = x.le y := by
  cases x <;> cases y <;> rfl

theorem value?_unsigned (x : Quantity) : x.unsigned.value? = x.value? := by
  cases x <;> rfl

theorem value?_zero (negative : Bool) : (zero negative).value? = some 0 := by
  cases negative <;> rfl

theorem value?_neg (x : Quantity) : x.neg.value? = x.value?.map (- ·) := by
  cases x with
  | finite q =>
    rw [neg]
    split
    · rename_i hq
      rw [Rat.num_eq_zero] at hq
      rw [hq]
      rfl
    · rfl
  | _ => rfl

/-- What is equal to a quantity without a signed zero is that quantity, but for the sign. -/
theorem eq_unsigned {x y : Quantity} (h : y.eq x = true) (hy : y ≠ .negativeZero) :
    y = x.unsigned := by
  cases y <;> cases x <;> simp_all [eq, value, unsigned]

theorem unsigned_of_pos {x : Quantity} (hx : Quantity.lt (.finite 0) x = true) : x.unsigned = x := by
  rcases lt_zero_iff.mp hx with ⟨q, -, rfl⟩ | rfl <;> rfl

theorem eq_zero_of_pos {x : Quantity} (hx : Quantity.lt (.finite 0) x = true) :
    x.eq (.finite 0) = false := by
  rcases lt_zero_iff.mp hx with ⟨q, hq, rfl⟩ | rfl
  · exact beq_false_of_ne hq.ne'
  · rfl

/-- What is equal to a quantity above zero is that quantity. -/
theorem eq_of_pos {x y : Quantity} (h : y.eq x = true) (hx : Quantity.lt (.finite 0) x = true) :
    y = x := by
  have hy : y ≠ .negativeZero := by
    rintro rfl
    rcases lt_zero_iff.mp hx with ⟨q, hq, rfl⟩ | rfl
    · exact hq.ne (eq_of_beq h)
    · cases h
  rw [eq_unsigned h hy, unsigned_of_pos hx]

end Quantity

/-! ## Sums and products -/

/-- A rounding that stays at zero and above: zero is exact, and nothing above zero is rounded to
what is below or to a zero with a sign. -/
structure Rounding.KeepsSigns (rounding : Rounding) : Prop where
  zero : rounding.round 0 = .finite 0
  nonnegative : ∀ q : Rat, 0 ≤ q →
    (∃ r : Rat, 0 ≤ r ∧ rounding.round q = .finite r) ∨ rounding.round q = .infinite false

theorem binary64_keepsSigns : Rounding.KeepsSigns .binary64 := by
  refine ⟨by decide, fun q hq ↦ ?_⟩
  have hnum : ¬ q.num < 0 := by simpa using hq
  show (∃ r : Rat, 0 ≤ r ∧ binary64 q = .finite r) ∨ binary64 q = .infinite false
  rw [binary64]
  dsimp only
  split
  · exact .inl ⟨0, le_rfl, rfl⟩
  rw [decide_eq_false hnum]
  split
  · exact .inl ⟨0, le_rfl, rfl⟩
  split
  · exact .inr rfl
  · exact .inl ⟨_, mul_nonneg (Nat.cast_nonneg _) (zpow_nonneg (by decide) _), rfl⟩

namespace Quantity

variable [rounding : Rounding]

/-- A product that is not zero is rounded once. -/
theorem finite_mul {q r : Rat} (h : q * r ≠ 0) :
    (finite q).mul (finite r) = rounding.round (q * r) := if_neg h

/-- A quotient that is not zero is rounded once. -/
theorem finite_div {q : Rat} (h : q ≠ 0) (r : Rat) :
    (finite q).div (finite r) = rounding.round (q / r) := if_neg h

/-- A product has the product of the values, if rounding leaves that as it is. -/
theorem value?_mul {x y : Quantity} {q r : Rat} (hx : x.value? = some q) (hy : y.value? = some r)
    (hround : rounding.round (q * r) = .finite (q * r)) : (x.mul y).value? = some (q * r) := by
  rw [mul, hx, hy]
  dsimp only
  by_cases hzero : q * r = 0
  · rw [if_pos hzero, hzero, value?_zero]
  · rw [if_neg hzero, hround]
    rfl

/-- A sum of what is not below zero is not, and a zero without a sign stays so. -/
theorem add_nonnegative (signs : rounding.KeepsSigns) {x y : Quantity}
    (hx : Quantity.le (.finite 0) x = true) (hx' : x ≠ .negativeZero)
    (hy : Quantity.le (.finite 0) y = true) :
    Quantity.le (.finite 0) (x.add y) = true ∧ x.add y ≠ .negativeZero := by
  rw [le_zero_iff] at hx hy ⊢
  obtain ⟨a, ha, rfl⟩ | rfl | rfl := hx
  · obtain ⟨b, hb, rfl⟩ | rfl | rfl := hy
    · have hround := signs.nonnegative (a + b) (add_nonneg ha hb)
      rw [add]
      obtain ⟨r, hr, hround⟩ | hround := hround
      · rw [hround]
        exact ⟨.inl ⟨r, hr, rfl⟩, by rintro ⟨⟩⟩
      · rw [hround]
        exact ⟨.inr (.inr rfl), by rintro ⟨⟩⟩
    · exact ⟨.inl ⟨a, ha, rfl⟩, by rintro ⟨⟩⟩
    · exact ⟨.inr (.inr rfl), by rintro ⟨⟩⟩
  · exact absurd rfl hx'
  · obtain ⟨b, hb, rfl⟩ | rfl | rfl := hy <;> exact ⟨.inr (.inr rfl), by rintro ⟨⟩⟩

end Quantity
end Montage
