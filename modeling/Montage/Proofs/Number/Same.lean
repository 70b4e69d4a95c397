import Mathlib.Tactic.Linarith
import Montage.Proofs.Number.Exact
import Montage.Proofs.Number.Order

/-!
# Results that differ in the sign of a zero

Where nothing is rounded, quantities compute like rationals with two ends, but for one thing: a zero
carries the sign of the way that led to it.  Two ways to the same result may therefore end in zeros
of different signs, which compare as equal and differ in nothing that is drawn.  Such results are
the `Quantity.Same`, and sums, differences and products of what is the same are the same.

Infinite and undefined quantities take part.  A product by zero is zero only if the other factor is
finite; every other law of this file holds for all quantities.
-/

set_option autoImplicit false

namespace Montage
namespace Quantity

/-- The quantities differ at most in the sign of a zero. -/
def Same (x y : Quantity) : Prop := x.unsigned = y.unsigned

namespace Same

variable {x y z : Quantity}

theorem refl (x : Quantity) : Same x x := Eq.refl _

theorem symm (h : Same x y) : Same y x := Eq.symm h

theorem trans (h : Same x y) (h' : Same y z) : Same x z := Eq.trans h h'

theorem value?_eq (h : Same x y) : x.value? = y.value? := by
  rw [← value?_unsigned x, h, value?_unsigned y]

theorem of_value? {q : Rat} (hx : x.value? = some q) (hy : y.value? = some q) : Same x y := by
  rw [Same, unsigned_of_value? hx, unsigned_of_value? hy]

/-- What differs differs in the sign of a zero. -/
theorem eq_or_zero (h : Same x y) : x = y ∨ (x.value? = some 0 ∧ y.value? = some 0) := by
  cases x <;> cases y <;> cases h <;> simp [value?]

end Same

theorem same_zero (negative : Bool) : Same (zero negative) (finite 0) := by
  cases negative <;> rfl

/-- What is equal to a rational is the same as it. -/
theorem Same.of_eq {x : Quantity} {q : Rat} (h : x.eq (.finite q) = true) :
    Same x (.finite q) := by
  cases x with
  | finite p => exact congrArg finite (beq_iff_eq.mp h)
  | negativeZero => exact congrArg finite (beq_iff_eq.mp h)
  | infinite negative => cases h
  | undefined => cases h

/-! ## Opposites -/

theorem neg_involutive (x : Quantity) : x.neg.neg = x := by
  cases x with
  | finite q =>
    rw [neg]
    split
    · rename_i hq
      rw [Rat.num_eq_zero.mp hq]
      rfl
    · rename_i hq
      rw [neg, if_neg (by rwa [Rat.neg_num, Int.neg_eq_zero]), neg_neg]
  | negativeZero => rfl
  | infinite negative => rw [neg, neg, Bool.not_not]
  | undefined => rfl

theorem Same.neg {x y : Quantity} (h : Same x y) : Same x.neg y.neg := by
  have hneg : ∀ z : Quantity, Same z.neg z.unsigned.neg := by
    intro z
    cases z <;> rfl
  exact (hneg x).trans (h ▸ (hneg y).symm)

variable [rounding : Rounding]

/-- To subtract the opposite is to add. -/
protected theorem sub_neg (x y : Quantity) : x.sub y.neg = x.add y := by
  rw [sub, neg_involutive]

/-- Products do not depend on the order of the factors. -/
protected theorem mul_comm (x y : Quantity) : x.mul y = y.mul x := by
  unfold mul
  cases hx : x.value? <;> cases hy : y.value? <;> simp only [bne_comm (a := x.isNegative)]
  · simp only [or_comm]
  · simp only [Rat.mul_comm]

/-- A zero, of either sign, makes a zero of what is finite and nothing of the rest. -/
theorem mul_of_value?_zero {x : Quantity} (hx : x.value? = some 0) (y : Quantity) :
    Same (x.mul y) (if y.isFinite then .finite 0 else .undefined) := by
  rw [mul, hx]
  cases y <;> simp only [value?, Rat.zero_mul, if_true, isFinite, or_true]
  · exact same_zero _
  · exact same_zero _
  · rfl
  · rfl

section

variable (exact : rounding.IsExact)
include exact

/-! ## Sums -/

theorem Same.add {x x' y y' : Quantity} (hx : Same x x') (hy : Same y y') :
    Same (x.add y) (x'.add y') := by
  have hadd : ∀ u v : Quantity, Same (u.add v) (u.unsigned.add v.unsigned) := by
    intro u v
    cases u <;> cases v <;> simp [Quantity.add, Same, unsigned, exact _]
  exact (hadd x y).trans (hx ▸ hy ▸ (hadd x' y').symm)

theorem Same.sub {x x' y y' : Quantity} (hx : Same x x') (hy : Same y y') :
    Same (x.sub y) (x'.sub y') :=
  hx.add exact hy.neg

protected theorem zero_add (x : Quantity) : Same ((finite 0).add x) x := by
  cases x <;> simp [add, Same, unsigned, exact _]

protected theorem add_zero (x : Quantity) : Same (x.add (finite 0)) x := by
  rw [add_comm]
  exact Quantity.zero_add exact x

omit exact in
protected theorem sub_zero (x : Quantity) : Same (x.sub (finite 0)) x := by
  cases x <;> simp [sub, neg, add, Same, unsigned]

/-! ## Products -/

omit exact in
theorem Same.mul {x x' y y' : Quantity} (hx : Same x x') (hy : Same y y') :
    Same (x.mul y) (x'.mul y') := by
  have hleft : ∀ {u v : Quantity}, Same u v → ∀ w : Quantity, Same (u.mul w) (v.mul w) := by
    intro u v h w
    obtain rfl | ⟨hu, hv⟩ := h.eq_or_zero
    · exact .refl _
    · exact (mul_of_value?_zero hu w).trans (mul_of_value?_zero hv w).symm
  refine (hleft hx y).trans ?_
  rw [Quantity.mul_comm x' y, Quantity.mul_comm x' y']
  exact hleft hy x'

protected theorem one_mul (x : Quantity) : Same ((finite 1).mul x) x := by
  cases x with
  | finite q => exact .of_value? (value?_mul rfl rfl (exact _)) (by rw [Rat.one_mul]; rfl)
  | negativeZero => exact .of_value? (value?_mul rfl rfl (exact _)) (by rw [Rat.one_mul]; rfl)
  | infinite negative => cases negative <;> rfl
  | undefined => rfl

protected theorem mul_one (x : Quantity) : Same (x.mul (finite 1)) x := by
  rw [Quantity.mul_comm]
  exact Quantity.one_mul exact x

omit exact in
/-- A product by zero is zero if the other factor is finite. -/
protected theorem zero_mul {x : Quantity} (hx : x.isFinite = true) :
    Same ((finite 0).mul x) (finite 0) := by
  have h := mul_of_value?_zero (x := finite 0) rfl x
  rwa [if_pos hx] at h

omit exact in
protected theorem mul_zero {x : Quantity} (hx : x.isFinite = true) :
    Same (x.mul (finite 0)) (finite 0) := by
  rw [Quantity.mul_comm]
  exact Quantity.zero_mul hx

/-! ## Quotients -/

/-- A quotient has the quotient of the values. -/
theorem value?_div {x y : Quantity} {q r : Rat} (hx : x.value? = some q) (hy : y.value? = some r) :
    (x.div y).value? = some (q / r) := by
  rw [div, hx, hy]
  dsimp only
  split
  · rename_i hq
    rw [hq, value?_zero, Rat.div_def, Rat.zero_mul]
  · rw [exact]
    rfl

omit exact in
/-- A zero has a zero as its quotient, unless it is divided by what is undefined. -/
theorem div_of_value?_zero {x : Quantity} (hx : x.value? = some 0) {y : Quantity}
    (hy : y ≠ .undefined) : Same (x.div y) (finite 0) := by
  rw [div, hx]
  cases y with
  | undefined => exact absurd rfl hy
  | _ => exact same_zero _

omit exact in
theorem Same.div {x x' y : Quantity} (hx : Same x x') (hy : y ≠ .undefined) :
    Same (x.div y) (x'.div y) := by
  obtain rfl | ⟨hzero, hzero'⟩ := hx.eq_or_zero
  · exact .refl _
  · exact (div_of_value?_zero hzero hy).trans (div_of_value?_zero hzero' hy).symm

omit exact in
/-- A number above zero does not bring back what is not finite. -/
theorem div_of_not_finite {x : Quantity} (hx : x.isFinite = false) {r : Rat} (hr : 0 < r) :
    x.div (finite r) = x := by
  have hsign : (finite r).isNegative = false := by
    simpa [isNegative] using hr.le
  cases x <;> cases hx
  · rw [div, hsign]
    exact congrArg infinite (Bool.bne_false _)
  · rfl

protected theorem div_one (x : Quantity) : Same (x.div (finite 1)) x := by
  cases hx : x.isFinite with
  | false => rw [div_of_not_finite hx (by decide)]; exact .refl x
  | true =>
    obtain ⟨q, hq⟩ := isFinite_iff.mp hx
    exact .of_value? (value?_div exact hq rfl) (by simpa using hq)

omit exact in
theorem isFinite_mul {x y : Quantity} (hy : y.isFinite = false) : (x.mul y).isFinite = false := by
  cases y <;> cases hy <;> cases x <;> simp only [mul, value?] <;> split <;> rfl

/-- A share of a finite amount may be taken before or after multiplication. -/
protected theorem mul_div_comm {x y : Quantity} (hx : x.isFinite = true) {r : Rat} (hr : 0 < r) :
    Same ((x.mul y).div (finite r)) ((y.div (finite r)).mul x) := by
  obtain ⟨q, hq⟩ := isFinite_iff.mp hx
  cases hy : y.isFinite with
  | false =>
    rw [div_of_not_finite (isFinite_mul hy) hr, div_of_not_finite hy hr, Quantity.mul_comm]
    exact .refl _
  | true =>
    obtain ⟨p, hp⟩ := isFinite_iff.mp hy
    refine .of_value? (value?_div exact (value?_mul hq hp (exact _)) rfl) ?_
    rw [value?_mul (value?_div exact hp rfl) hq (exact _)]
    exact congrArg some (by ring)

end

end Quantity

/-! ## Times on the line

Where nothing is rounded, times that are not below zero add on the line of the rationals with its
ends as they stand there (`rank_add`), and the later one of two times is the one further up
(`rank_max`).  Times at one place differ at most in the sign of a zero (`same_iff_rank`).  What is
to be said about sums and largest ones of times can so be computed on the line, where sums may be
bracketed and moved into a maximum. -/

namespace Quantity

theorem same_iff_rank {x y : Quantity} (hx : x ≠ .undefined) (hy : y ≠ .undefined) :
    Same x y ↔ x.rank = y.rank := by
  rcases x with q | - | (- | -) | - <;> rcases y with r | - | (- | -) | -
  all_goals first | exact absurd rfl hx | exact absurd rfl hy | skip
  all_goals simp only [Same, unsigned, rank, WithBot.coe_inj, WithTop.coe_inj, finite.injEq,
    (coe_lt_top _).ne, (coe_lt_top _).ne', WithBot.coe_ne_bot, WithBot.bot_ne_coe, bot_ne_top,
    top_ne_bot, infinite.injEq, Bool.false_eq_true, reduceCtorEq]

/-- The sign of a zero does not change its place. -/
theorem Same.rank_eq {x y : Quantity} (h : Same x y) : x.rank = y.rank := by
  have hrank (z : Quantity) : z.unsigned.rank = z.rank := by cases z <;> rfl
  rw [← hrank x, h, hrank y]

theorem rank_max {x y : Quantity} (hx : x ≠ .undefined) (hy : y ≠ .undefined) :
    (x.max y).rank = Max.max x.rank y.rank := by
  rw [max]
  split
  · rename_i h
    rw [max_eq_right ((lt_iff hx hy).mp h).le]
  · rename_i h
    rw [lt_iff hx hy, not_lt] at h
    rw [max_eq_left h]

theorem rank_nonneg {x : Quantity} (hx : Quantity.le (.finite 0) x = true) : 0 ≤ x.rank :=
  (le_iff (by decide) (le_defined hx).2).mp hx

theorem rank_of_isFinite {x : Quantity} (hx : x.isFinite = true) :
    ∃ q : Rat, x.rank = ((q : WithTop Rat) : WithBot (WithTop Rat)) := by
  cases x with
  | finite q => exact ⟨q, rfl⟩
  | negativeZero => exact ⟨0, rfl⟩
  | infinite negative => cases hx
  | undefined => cases hx

/-- The finite part of a sum on the line can be taken away. -/
theorem rank_add_left_cancel {x : Quantity} (hx : x.isFinite = true)
    {u v : WithBot (WithTop Rat)} (h : x.rank + u = x.rank + v) : u = v := by
  obtain ⟨q, hq⟩ := rank_of_isFinite hx
  have hzero : (((-q : Rat) : WithTop Rat) : WithBot (WithTop Rat)) + x.rank = 0 := by
    rw [hq]
    exact_mod_cast neg_add_cancel q
  rw [← zero_add u, ← hzero, add_assoc, h, ← add_assoc, hzero, zero_add]

/-- What is moved by some time ends later than it did, so the later one of the two is the other. -/
theorem rank_eq_of_add_eq_max {x y z : Quantity} (hx : x.isFinite = true) (hy : y.isFinite = true)
    (hz : z.isFinite = true) (hpositive : Quantity.lt (.finite 0) z = true)
    (h : x.rank + z.rank = Max.max x.rank (y.rank + z.rank)) : y.rank = x.rank := by
  obtain ⟨p, hp⟩ := rank_of_isFinite hx
  obtain ⟨q, hq⟩ := rank_of_isFinite hy
  obtain ⟨r, hr⟩ := rank_of_isFinite hz
  have hplace : (((0 : Rat) : WithTop Rat) : WithBot (WithTop Rat)) < z.rank :=
    (lt_iff (by decide) (lt_defined hpositive).2).mp hpositive
  rw [hp, hq, hr] at h
  rw [hr] at hplace
  have hsome : 0 < r := by exact_mod_cast hplace
  have hrat : p + r = Max.max p (q + r) := by exact_mod_cast h
  rw [hp, hq]
  rcases max_choice p (q + r) with hmax | hmax <;> rw [hmax] at hrat
  · linarith
  · rw [add_right_cancel hrat]

variable [rounding : Rounding]

/-- Times add on the line. -/
theorem rank_add (exact : rounding.IsExact) {x y : Quantity}
    (hx : Quantity.le (.finite 0) x = true) (hy : Quantity.le (.finite 0) y = true) :
    (x.add y).rank = x.rank + y.rank := by
  rw [le_zero_iff] at hx hy
  obtain ⟨q, -, rfl⟩ | rfl | rfl := hx <;> obtain ⟨r, -, rfl⟩ | rfl | rfl := hy <;>
    simp only [add, exact _, if_true]
  all_goals first | rfl | simp [rank]

end Quantity
end Montage
