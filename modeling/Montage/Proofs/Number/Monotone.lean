import Mathlib.Tactic.Ring
import Montage.Proofs.Number.Exact
import Montage.Proofs.Number.Grid

/-!
# Rounding keeps the order

Of two rationals that are not below zero, the larger one is not rounded to less than the smaller one
(`binary64_keepsOrder`).  Where both count the same unit, the nearer of two counts is not larger for
the smaller number; where their units differ, a power of two lies between them, and neither is
rounded past it.  As opposites are rounded to opposites, the order is kept below zero too
(`binary64_isMonotone`).

So times that have come out of a sum compare after another sum as they did before it.  They are the
`Quantity.IsRounded`: zero or above, with no sign on a zero, and on the grid.  The one thing that a
sum does not round is a negative zero, which is why times that have not come out of a sum are kept
apart from those that have.

Times that are seen from an earlier one keep their order as well (`Quantity.sub_lt_sub`), except
that two infinities of one sign have no difference.
-/

set_option autoImplicit false

namespace Montage

/-! ## The binary grid -/

/-- Of two numbers, the larger one does not have the smaller nearest count. -/
theorem natCast_le_of_near {x y : Rat} {m n : Nat} (hm : |x - m| ≤ 1 / 2) (hn : |y - n| ≤ 1 / 2)
    (hlt : x < y) : m ≤ n := by
  by_contra hgt
  have hstep : (n : Rat) + 1 ≤ m := by exact_mod_cast not_le.mp hgt
  rw [abs_le] at hm hn
  linarith

/-- The counts of two numbers, times their units, are in the order of the numbers. -/
theorem count_mul_unit_le {u v : Int} {k l : Nat} {p q : Rat} (hlt : p < q) (hu : IsUnitOf u p)
    (hk : |p / 2 ^ u - k| ≤ 1 / 2) (hv : IsUnitOf v q) (hl : |q / 2 ^ v - l| ≤ 1 / 2) :
    (k * 2 ^ u : Rat) ≤ l * 2 ^ v := by
  have hunit := two_zpow_pos u
  rcases (hu.le_of_le hv hlt.le).eq_or_lt with rfl | hunits
  · have hcounts : k ≤ l := natCast_le_of_near hk hl ((div_lt_div_iff_of_pos_right hunit).mpr hlt)
    exact mul_le_mul_of_nonneg_right (by exact_mod_cast hcounts) hunit.le
  · -- `2 ^ 53` of the smaller unit are not more than `2 ^ 52` of the larger one
    have hbelow : (k : Rat) ≤ 2 ^ 53 := by exact_mod_cast hu.count_le hk
    have habove : (2 ^ 52 : Rat) ≤ l := by
      exact_mod_cast hv.le_count (by have := hu.least; omega) hl
    calc (k * 2 ^ u : Rat) ≤ 2 ^ 53 * 2 ^ u := mul_le_mul_of_nonneg_right hbelow hunit.le
      _ = 2 ^ 52 * 2 ^ (u + 1) := by
          rw [zpow_add_one₀ two_ne_zero]
          ring
      _ ≤ 2 ^ 52 * 2 ^ v :=
          mul_le_mul_of_nonneg_left (zpow_le_zpow_right₀ one_le_two (by omega)) (by norm_num)
      _ ≤ l * 2 ^ v := mul_le_mul_of_nonneg_right habove (two_zpow_pos v).le

/-- A rounding that keeps signs and order, and leaves as it is what it yields. -/
structure Rounding.KeepsOrder (rounding : Rounding) : Prop extends rounding.KeepsSigns where
  le : ∀ p q : Rat, 0 ≤ p → p ≤ q → (rounding.round p).le (rounding.round q) = true
  settles : ∀ p q : Rat, rounding.round p = .finite q → rounding.round q = .finite q

/-- Without rounding, everything is kept. -/
theorem Rounding.IsExact.keepsOrder {rounding : Rounding} (exact : rounding.IsExact) :
    rounding.KeepsOrder where
  zero := exact 0
  nonnegative q hq := .inl ⟨q, hq, exact q⟩
  le p q _ hle := by
    rw [exact, exact, Quantity.le_iff_value? rfl rfl]
    exact hle
  settles _ q _ := exact q

theorem Quantity.le_infinite {x : Quantity} (hx : x ≠ .undefined) :
    x.le (.infinite false) = true :=
  (le_iff hx (by simp)).mpr le_top

/-- A number of the grid, or an infinity from a limit on, is in the order of the numbers. -/
theorem gridValue_le {limit x y : Rat} (hx : 0 ≤ x) (hxy : x ≤ y) :
    (if x = 0 then .finite 0 else if limit ≤ x then .infinite false else .finite x : Quantity).le
      (if y = 0 then .finite 0 else if limit ≤ y then .infinite false else .finite y) = true := by
  by_cases hy : y = 0
  · obtain rfl : x = 0 := le_antisymm (hy ▸ hxy) hx
    rw [if_pos rfl, if_pos hy]
    decide
  rw [if_neg hy]
  by_cases hlimit : limit ≤ y
  · rw [if_pos hlimit]
    refine Quantity.le_infinite ?_
    split_ifs <;> simp
  · rw [if_neg hlimit]
    by_cases hzero : x = 0
    · rw [if_pos hzero, Quantity.le_iff_value? rfl rfl, ← hzero]
      exact hxy
    · rw [if_neg hzero, if_neg fun h ↦ hlimit (h.trans hxy), Quantity.le_iff_value? rfl rfl]
      exact hxy

theorem binary64_le_binary64 {p q : Rat} (hp : 0 ≤ p) (hle : p ≤ q) :
    (binary64 p).le (binary64 q) = true := by
  rcases hle.eq_or_lt with rfl | hlt
  · exact Quantity.le_refl (binary64_ne_undefined p)
  rcases hp.eq_or_lt with rfl | hpos
  · rw [isOnGrid_zero, Quantity.le_zero_iff]
    obtain ⟨r, hr, h⟩ | h := binary64_keepsSigns.nonnegative q hlt.le
    · exact .inl ⟨r, hr, h⟩
    · exact .inr (.inr h)
  obtain ⟨u, k, hu, hk, hroundp⟩ := binary64_of_pos hpos
  obtain ⟨v, l, hv, hl, hroundq⟩ := binary64_of_pos (hpos.trans hlt)
  rw [hroundp, hroundq]
  exact gridValue_le (mul_nonneg (Nat.cast_nonneg k) (two_zpow_pos u).le)
    (count_mul_unit_le hlt hu hk hv hl)

/-- What lies between two points of the grid is rounded to a point between them. -/
theorem exists_binary64_between {p q r : Rat} (hp : IsOnGrid p) (hr : IsOnGrid r) (hzero : 0 ≤ p)
    (hpq : p ≤ q) (hqr : q ≤ r) :
    ∃ v, binary64 q = .finite v ∧ IsOnGrid v ∧ p ≤ v ∧ v ≤ r := by
  have hlow := binary64_le_binary64 hzero hpq
  have hhigh := binary64_le_binary64 (hzero.trans hpq) hqr
  rw [hp] at hlow
  rw [hr] at hhigh
  obtain ⟨v, -, hv⟩ | hv := binary64_keepsSigns.nonnegative q (hzero.trans hpq)
  · have hround : binary64 q = .finite v := hv
    rw [hround] at hlow hhigh
    exact ⟨v, hround, isOnGrid_of_binary64 hround, (Quantity.le_iff_value? rfl rfl).mp hlow,
      (Quantity.le_iff_value? rfl rfl).mp hhigh⟩
  · have hround : binary64 q = .infinite false := hv
    rw [hround] at hhigh
    cases hhigh

/-- **Rounding to the binary grid keeps the order.** -/
theorem binary64_keepsOrder : Rounding.KeepsOrder .binary64 where
  toKeepsSigns := binary64_keepsSigns
  le _ _ hp hle := binary64_le_binary64 hp hle
  settles _ _ h := isOnGrid_of_binary64 h

/-! ## Below zero -/

namespace Quantity

theorem neg_ne_undefined {x : Quantity} (hx : x ≠ .undefined) : x.neg ≠ .undefined := by
  cases x with
  | finite q => rw [neg]; split <;> simp
  | undefined => exact absurd rfl hx
  | _ => simp [neg]

theorem infinite_le {x : Quantity} (hx : x ≠ .undefined) : (infinite true).le x = true :=
  (le_iff (by simp) hx).mpr bot_le

/-- Opposites are in the opposite order. -/
theorem neg_le_neg {x y : Quantity} (h : x.le y = true) : y.neg.le x.neg = true := by
  obtain ⟨hxdefined, hydefined⟩ := le_defined h
  cases hx : x.value? with
  | some p =>
    have hxneg : x.neg.value? = some (-p) := by rw [value?_neg, hx]; rfl
    cases hy : y.value? with
    | some q =>
      have hle := (le_iff_value? hx hy).mp h
      rw [le_iff_value? (by rw [value?_neg, hy]; rfl) hxneg]
      linarith
    | none =>
      rcases y with r | - | (- | -) | - <;> cases hy
      · exact infinite_le (neg_ne_undefined hxdefined)
      · cases x <;> cases hx <;> cases h
      · exact absurd rfl hydefined
  | none =>
    rcases x with r | - | (- | -) | - <;> cases hx
    · rcases y with r | - | (- | -) | - <;> first | rfl | cases h
    · exact le_infinite (neg_ne_undefined hydefined)
    · exact absurd rfl hxdefined

end Quantity

/-- **Rounding to the binary grid keeps the order**, also below zero. -/
theorem binary64_le {p q : Rat} (h : p ≤ q) : (binary64 p).le (binary64 q) = true := by
  have hpositive {r : Rat} (hr : 0 ≤ r) : Quantity.le (.finite 0) (binary64 r) = true := by
    rw [Quantity.le_zero_iff]
    obtain ⟨v, hv, h⟩ | h := binary64_keepsSigns.nonnegative r hr
    · exact .inl ⟨v, hv, h⟩
    · exact .inr (.inr h)
  have hnegative {r : Rat} (hr : r < 0) : binary64 r = (binary64 (-r)).neg := by
    rw [← binary64_neg (neg_pos.mpr hr), neg_neg]
  rcases lt_or_ge p 0 with hp | hp
  · rcases lt_or_ge q 0 with hq | hq
    · rw [hnegative hp, hnegative hq]
      exact Quantity.neg_le_neg (binary64_le_binary64 (neg_pos.mpr hq).le (by linarith))
    · have hbelow := Quantity.neg_le_neg (hpositive (neg_pos.mpr hp).le)
      rw [← hnegative hp] at hbelow
      have hzero : (Quantity.finite 0).neg.le (.finite 0) = true := by decide
      exact Quantity.le_trans (Quantity.le_trans hbelow hzero) (hpositive hq)
  · exact binary64_le_binary64 hp h

/-- A rounding that keeps the order of all numbers. -/
structure Rounding.IsMonotone (rounding : Rounding) : Prop extends rounding.KeepsOrder where
  monotone : ∀ p q : Rat, p ≤ q → (rounding.round p).le (rounding.round q) = true

theorem binary64_isMonotone : Rounding.IsMonotone .binary64 where
  toKeepsOrder := binary64_keepsOrder
  monotone _ _ h := binary64_le h

namespace Quantity

variable [rounding : Rounding]

/-- The number that a quantity is rounded to; what is not finite stays, and so does the sign of a
zero. -/
def landed : Quantity → Quantity
  | .finite q => rounding.round q
  | x => x

theorem landed_of_fixed {x : Quantity} (h : ∀ q, x = .finite q → rounding.round q = .finite q) :
    x.landed = x := by
  cases x with
  | finite q => exact h q rfl
  | _ => rfl

theorem landed_round (keeps : rounding.KeepsOrder) (q : Rat) :
    (rounding.round q).landed = rounding.round q :=
  landed_of_fixed fun r hr ↦ keeps.settles q r hr

theorem landed_ne_undefined (monotone : rounding.IsMonotone) {x : Quantity} (hx : x ≠ .undefined) :
    x.landed ≠ .undefined := by
  cases x with
  | finite q => exact (le_defined (monotone.monotone q q le_rfl)).1
  | undefined => exact absurd rfl hx
  | _ => simp [landed]

/-- Whether a zero has a sign makes no difference to where it is. -/
theorem landed_of_value? (monotone : rounding.IsMonotone) {x : Quantity} {q : Rat}
    (hx : x.value? = some q) :
    x.landed.le (rounding.round q) = true ∧ (rounding.round q).le x.landed = true := by
  cases x with
  | finite p => cases hx; exact ⟨monotone.monotone _ _ le_rfl, monotone.monotone _ _ le_rfl⟩
  | negativeZero => cases hx; rw [monotone.zero]; exact ⟨rfl, rfl⟩
  | infinite negative => cases hx
  | undefined => cases hx

/-- A number becomes the quantity that it is rounded to. -/
theorem landed_of_toQuantity (keeps : rounding.KeepsOrder) {n : Number} {x : Quantity}
    (h : n.toQuantity = .ok x) : x.landed = n.exactly.landed := by
  cases n with
  | real y => cases h; rfl
  | whole k =>
    rw [Number.toQuantity] at h
    split at h <;> cases h
    exact landed_round keeps k

/-- Rounding keeps the order of quantities. -/
theorem landed_le (monotone : rounding.IsMonotone) {x y : Quantity} (h : x.le y = true) :
    x.landed.le y.landed = true := by
  obtain ⟨hxdefined, hydefined⟩ := le_defined h
  cases hx : x.value? with
  | some p =>
    cases hy : y.value? with
    | some q =>
      have hround := monotone.monotone p q ((le_iff_value? hx hy).mp h)
      exact le_trans (le_trans (landed_of_value? monotone hx).1 hround)
        (landed_of_value? monotone hy).2
    | none =>
      rcases y with r | - | (- | -) | - <;> cases hy
      · exact le_infinite (landed_ne_undefined monotone hxdefined)
      · cases x <;> cases hx <;> cases h
      · exact absurd rfl hydefined
  | none =>
    rcases x with r | - | (- | -) | - <;> cases hx
    · rcases y with r | - | (- | -) | - <;> first | rfl | cases h
    · exact infinite_le (landed_ne_undefined monotone hydefined)
    · exact absurd rfl hxdefined

end Quantity

/-- A rounding that keeps the order and is binary: what it leaves as it is, it also leaves as it is
when that is halved or doubled, as far as this does not lead away from the middle of its range. -/
structure Rounding.IsBinary (rounding : Rounding) : Prop extends rounding.KeepsOrder where
  one : rounding.round 1 = .finite 1
  half : ∀ q : Rat, 1 ≤ q → rounding.round q = .finite q → rounding.round (q / 2) = .finite (q / 2)
  double : ∀ q : Rat, 0 < q → q ≤ 1 → rounding.round q = .finite q →
    rounding.round (2 * q) = .finite (2 * q)

theorem Rounding.IsExact.isBinary {rounding : Rounding} (exact : rounding.IsExact) :
    rounding.IsBinary where
  toKeepsOrder := exact.keepsOrder
  one := exact 1
  half q _ _ := exact (q / 2)
  double q _ _ _ := exact (2 * q)

theorem binary64_isBinary : Rounding.IsBinary .binary64 where
  toKeepsOrder := binary64_keepsOrder
  one := by decide +kernel
  half _ hq h := IsOnGrid.half h hq
  double _ hpos hq h := IsOnGrid.double h hpos (lt_binaryLimit (by linarith))

namespace Quantity

/-- A time that is zero or above has a value, or never comes. -/
theorem value?_or_endless {x : Quantity} (hx : Quantity.le (.finite 0) x = true) :
    (∃ q, 0 ≤ q ∧ x.value? = some q) ∨ x = .infinite false := by
  rcases le_zero_iff.mp hx with ⟨q, hq, rfl⟩ | rfl | rfl
  · exact .inl ⟨q, hq, rfl⟩
  · exact .inl ⟨0, le_rfl, rfl⟩
  · exact .inr rfl

/-- What is between zero and something finite is finite. -/
theorem exists_finite_of_le {x : Quantity} {b : Rat} (hx : Quantity.le (.finite 0) x = true)
    (hb : x.le (.finite b) = true) : ∃ q, 0 ≤ q ∧ q ≤ b ∧ x.value? = some q := by
  rcases value?_or_endless hx with ⟨q, hq, hvalue⟩ | rfl
  · exact ⟨q, hq, (le_iff_value? hvalue rfl).mp hb, hvalue⟩
  · cases hb

/-- What is not before a time with a value has a value too, or never comes. -/
theorem value?_or_endless_of_le {x y : Quantity} {p : Rat} (hx : x.value? = some p)
    (hxy : x.le y = true) : (∃ q, p ≤ q ∧ y.value? = some q) ∨ y = .infinite false := by
  cases hy : y.value? with
  | some q => exact .inl ⟨q, (le_iff_value? hx hy).mp hxy, rfl⟩
  | none =>
    right
    rcases y with q | - | (- | -) | -
    · cases hy
    · cases hy
    · rfl
    · cases x <;> first | cases hx; done | simp [le, lt, eq] at hxy
    · exact absurd rfl (le_defined hxy).2

/-- Nothing is behind what never comes but what never comes either. -/
theorem eq_endless_of_le {y : Quantity} (h : (infinite false).le y = true) : y = .infinite false := by
  rcases y with q | - | (- | -) | - <;> first | rfl | cases h

theorem endless_lt (x : Quantity) : (infinite false).lt x = false := by
  cases x <;> rfl

theorem undefined_lt (x : Quantity) : undefined.lt x = false := by
  cases x <;> rfl

theorem lt_undefined (x : Quantity) : x.lt .undefined = false := by
  cases x <;> rfl

variable [rounding : Rounding]

theorem endless_add {x : Quantity} (hx : Quantity.le (.finite 0) x = true) :
    (infinite false).add x = .infinite false := by
  rcases le_zero_iff.mp hx with ⟨q, -, rfl⟩ | rfl | rfl <;> rfl

/-! ## Times that have come out of a sum -/

/-- A time that is zero or above, with no sign on a zero, and that rounding leaves as it is. -/
structure IsRounded (x : Quantity) : Prop where
  nonnegative : Quantity.le (.finite 0) x = true
  unsigned : x ≠ .negativeZero
  fixed : ∀ q, x = .finite q → rounding.round q = .finite q

namespace IsRounded

variable {x y offset : Quantity}

theorem defined (hx : x.IsRounded) : x ≠ .undefined := (le_defined hx.nonnegative).2

theorem finite_or_endless (hx : x.IsRounded) : (∃ q, 0 ≤ q ∧ x = .finite q) ∨ x = .infinite false := by
  rcases le_zero_iff.mp hx.nonnegative with h | rfl | rfl
  · exact .inl h
  · exact absurd rfl hx.unsigned
  · exact .inr rfl

theorem eq_of_le_of_le (hx : x.IsRounded) (hy : y.IsRounded) (hxy : x.le y = true)
    (hyx : y.le x = true) : x = y := by
  rcases hx.finite_or_endless with ⟨q, -, rfl⟩ | rfl <;>
    rcases hy.finite_or_endless with ⟨r, -, rfl⟩ | rfl
  · exact congrArg finite
      (le_antisymm ((le_iff_value? rfl rfl).mp hxy) ((le_iff_value? rfl rfl).mp hyx))
  · cases hyx
  · cases hxy
  · rfl

/-- To what has come out of a sum, a negative zero adds what a zero does. -/
theorem add_eq_round {q r : Rat} (hx : (finite q).IsRounded) (hy : y.value? = some r) :
    (finite q).add y = rounding.round (q + r) := by
  cases y with
  | finite s => cases hy; rfl
  | negativeZero => cases hy; rw [Rat.add_zero, hx.fixed q rfl]; rfl
  | infinite negative => cases hy
  | undefined => cases hy

/-- Moving by zero leaves a time that has come out of a sum where it is. -/
theorem add_zero (hx : x.IsRounded) : x.add (.finite 0) = x := by
  rcases hx.finite_or_endless with ⟨q, -, rfl⟩ | rfl
  · rw [hx.add_eq_round rfl, Rat.add_zero, hx.fixed q rfl]
  · rfl

variable (keeps : rounding.KeepsOrder)
include keeps

omit x y offset in
theorem zero : (Quantity.finite 0).IsRounded where
  nonnegative := by decide
  unsigned := by simp
  fixed q h := by cases h; exact keeps.zero

/-- What a time is added to that has come out of a sum comes out of a sum again. -/
theorem add (hx : x.IsRounded) (hy : Quantity.le (.finite 0) y = true) : (x.add y).IsRounded := by
  obtain ⟨hnonneg, hunsigned⟩ := add_nonnegative keeps.toKeepsSigns hx.nonnegative hx.unsigned hy
  refine ⟨hnonneg, hunsigned, fun q hq ↦ ?_⟩
  rcases hx.finite_or_endless with ⟨p, -, rfl⟩ | rfl
  · rcases value?_or_endless hy with ⟨r, -, hr⟩ | rfl
    · rw [hx.add_eq_round hr] at hq
      exact keeps.settles _ _ hq
    · cases hq
  · rw [endless_add hy] at hq
    cases hq

/-- Nothing gets earlier by what is added to it. -/
theorem le_add (hx : x.IsRounded) (hy : Quantity.le (.finite 0) y = true) :
    x.le (x.add y) = true := by
  rcases hx.finite_or_endless with ⟨q, hq, rfl⟩ | rfl
  · rcases value?_or_endless hy with ⟨r, hr, hvalue⟩ | rfl
    · have hround := keeps.le q (q + r) hq (by linarith)
      rwa [hx.fixed q rfl, ← hx.add_eq_round hvalue] at hround
    · exact le_infinite hx.defined
  · rw [endless_add hy]
    exact le_refl hx.defined

/-- To a time that has come out of a sum, a larger one adds more. -/
theorem add_le_add_left (hoffset : offset.IsRounded) (hx : Quantity.le (.finite 0) x = true)
    (hxy : x.le y = true) : (offset.add x).le (offset.add y) = true := by
  have hy := le_trans hx hxy
  rcases hoffset.finite_or_endless with ⟨o, ho, rfl⟩ | rfl
  · rcases value?_or_endless hy with ⟨r, -, hr⟩ | rfl
    · rcases value?_or_endless hx with ⟨q, hq, hvalue⟩ | rfl
      · rw [hoffset.add_eq_round hr, hoffset.add_eq_round hvalue]
        have hle := (le_iff_value? hvalue hr).mp hxy
        exact keeps.le _ _ (by linarith) (by linarith)
      · cases y <;> cases hr <;> cases hxy
    · exact le_infinite (hoffset.add keeps hx).defined
  · rw [endless_add hx, endless_add hy]
    decide

/-- The later one of two times that have come out of a sum stays the later one. -/
theorem add_le_add_right (hx : x.IsRounded) (hy : y.IsRounded) (hxy : x.le y = true)
    (hoffset : Quantity.le (.finite 0) offset = true) :
    (x.add offset).le (y.add offset) = true := by
  rcases hy.finite_or_endless with ⟨r, -, rfl⟩ | rfl
  · rcases hx.finite_or_endless with ⟨q, hq, rfl⟩ | rfl
    · rcases value?_or_endless hoffset with ⟨o, ho, hvalue⟩ | rfl
      · rw [hx.add_eq_round hvalue, hy.add_eq_round hvalue]
        have hle := (le_iff_value? rfl rfl).mp hxy
        exact keeps.le _ _ (by linarith) (by linarith)
      · exact le_refl (by simp [Quantity.add])
    · cases hxy
  · rw [endless_add hoffset]
    exact le_infinite (hx.add keeps hoffset).defined

end IsRounded

/-! ## Differences -/

/-- From a zero without a sign, every time is seen where it is. -/
theorem sub_origin (x : Quantity) : x.sub (.finite 0) = x := by
  cases x <;> rfl

/-- A difference is undefined only between two infinities of one sign. -/
theorem sub_eq_undefined (total : ∀ q, rounding.round q ≠ .undefined) {x y : Quantity}
    (hx : x ≠ .undefined) (hy : y ≠ .undefined) :
    x.sub y = .undefined ↔ ∃ negative, x = .infinite negative ∧ y = .infinite negative := by
  rcases x with q | - | b | - <;> rcases y with r | - | c | -
  all_goals first | exact absurd rfl hx | exact absurd rfl hy | skip
  · rw [sub, neg]
    split <;> simp [add, total]
  · simp [sub, neg, add, total]
  · simp [sub, neg, add]
  · rw [sub, neg]
    split <;> simp [add]
  · simp [sub, neg, add]
  · simp [sub, neg, add]
  · rw [sub, neg]
    split <;> simp [add]
  · simp [sub, neg, add]
  · cases b <;> cases c <;> simp [sub, neg, add]

/-- What is infinite stays so, seen from a value. -/
theorem infinite_sub {origin : Quantity} {p : Rat} (horigin : origin.value? = some p)
    (negative : Bool) : (infinite negative).sub origin = .infinite negative := by
  cases origin with
  | finite r => rw [sub, neg]; split <;> rfl
  | negativeZero => rfl
  | infinite negative => cases horigin
  | undefined => cases horigin

/-- Whether rounding leaves the opposite of a quantity as it is. -/
def HasOpposite (x : Quantity) : Prop := ∀ q, x.value? = some q → rounding.round (-q) = .finite (-q)

/-- A difference of values is rounded once, unless nothing is taken away. -/
theorem sub_eq_round {x origin : Quantity} {q p : Rat} (hx : x.value? = some q)
    (horigin : origin.value? = some p) (hne : origin ≠ .finite 0) (opposite : origin.HasOpposite) :
    x.sub origin = rounding.round (q - p) := by
  have hneg : origin.neg = .finite (-p) := by
    cases origin with
    | finite r =>
      cases horigin
      rw [neg, if_neg]
      exact fun h ↦ hne (congrArg _ (Rat.num_eq_zero.mp h))
    | negativeZero => cases horigin; rfl
    | infinite negative => cases horigin
    | undefined => cases horigin
  rw [sub, hneg, sub_eq_add_neg]
  cases x with
  | finite r => cases hx; rfl
  | negativeZero =>
    -- what a negative zero is added to is not rounded
    cases hx
    rw [zero_add, opposite p horigin]
    rfl
  | infinite negative => cases hx
  | undefined => cases hx

/-- A time that has a value is zero from itself on. -/
theorem value?_sub_self (zero : rounding.round 0 = .finite 0) {x : Quantity} (hx : x.isFinite = true)
    (opposite : x.HasOpposite) : (x.sub x).value? = some 0 := by
  obtain ⟨q, hq⟩ := isFinite_iff.mp hx
  by_cases hzero : x = .finite 0
  · rw [hzero, sub_origin]
    rfl
  · rw [sub_eq_round hq hq hzero opposite, sub_self, zero]
    rfl

/-- What is seen from an earlier origin keeps its order, as far as there is anything to compare. -/
theorem sub_lt_sub (keeps : rounding.KeepsOrder) {origin x y : Quantity}
    (opposite : origin.HasOpposite) (hx : origin.le x = true) (hxy : x.le y = true) :
    (y.sub origin).lt (x.sub origin) = false := by
  cases horigin : origin.value? with
  | some p =>
    by_cases hzero : origin = .finite 0
    · subst hzero
      rw [sub_origin, sub_origin]
      exact (lt_eq_false (le_defined hxy).2 (le_defined hxy).1).mpr hxy
    rcases value?_or_endless_of_le horigin hx with ⟨q, hpq, hq⟩ | rfl
    · rcases value?_or_endless_of_le hq hxy with ⟨r, hqr, hr⟩ | rfl
      · rw [sub_eq_round hq horigin hzero opposite, sub_eq_round hr horigin hzero opposite]
        have hround := keeps.le (q - p) (r - p) (by linarith) (by linarith)
        exact (lt_eq_false (le_defined hround).2 (le_defined hround).1).mpr hround
      · rw [infinite_sub horigin, endless_lt]
    · rw [eq_endless_of_le hxy, infinite_sub horigin, endless_lt]
  | none =>
    -- between infinities of one sign, there is nothing to compare
    rcases origin with p | - | (- | -) | -
    · cases horigin
    · cases horigin
    · rw [eq_endless_of_le hx]
      exact lt_undefined _
    · rcases y with r | - | (- | -) | -
      · exact endless_lt _
      · exact endless_lt _
      · exact endless_lt _
      · exact undefined_lt _
      · exact undefined_lt _
    · exact absurd rfl (le_defined hx).1

end Quantity
end Montage
