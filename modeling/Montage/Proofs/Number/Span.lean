import Montage.Proofs.Expr.Value
import Montage.Proofs.Number.Monotone
import Montage.Proofs.Number.Same

/-!
# Spans of time

What lies behind a span by a share of its length lies within the span, also where each result is
rounded to the grid (`Number.moved_by_share`): a rounding that keeps the order does not lead past
what it leaves as it is.  The product is rounded and then the sum, so both have to be on the grid.

Whole numbers are computed with exactly and rounded only when they are used.  If both the start and
the length of a span are whole numbers, its end is therefore not the rounded start and the rounded
length, added; it may lie behind that.

Of two sums with the same time, the one with the longer length is not the earlier one
(`Quantity.add_lt_add_left`).  This is said as "not earlier", since a sum of opposite infinities is
neither earlier nor later than anything.  So a length and a pause behind it lead no less far than
the length alone (`Number.add_pause_lt`), whichever of the numbers are whole.

A whole number is a quantity unless it is too large for one; a modest number and the sum of two
modest numbers are not (`Number.IsModest`).
-/

set_option autoImplicit false

namespace Montage

variable [rounding : Rounding]

/-! ## Sums and products -/

namespace Quantity

omit rounding in
theorem Same.le_eq {x x' y y' : Quantity} (hx : Same x x') (hy : Same y y') :
    x.le y = x'.le y' := by
  rw [← unsigned_le, hx, hy, unsigned_le]

omit rounding in
theorem Same.lt_eq {x x' y y' : Quantity} (hx : Same x x') (hy : Same y y') :
    x.lt y = x'.lt y' := by
  have hunsigned (u v : Quantity) : u.unsigned.lt v.unsigned = u.lt v := by
    cases u <;> cases v <;> rfl
  rw [← hunsigned, hx, hy, hunsigned]

theorem negativeZero_add (x : Quantity) : negativeZero.add x = x := by
  cases x <;> rfl

/-- A sum of what is on the grid is where its exact result is rounded to. -/
theorem same_add (grid : rounding.IsGrid) {x y : Quantity} {p q : Rat} (hx : x.value? = some p)
    (hy : y.value? = some q) (hxgrid : x.IsOnGrid) (hygrid : y.IsOnGrid) :
    Same (x.add y) (rounding.round (p + q)) := by
  cases x with
  | finite r =>
    cases hx
    cases y with
    | finite s => cases hy; exact .refl _
    | negativeZero => cases hy; rw [add_zero, grid.fixed _ (hxgrid _ rfl)]; exact .refl _
    | infinite negative => cases hy
    | undefined => cases hy
  | negativeZero =>
    cases hx
    rw [negativeZero_add, zero_add, grid.fixed _ (hygrid _ hy)]
    exact .of_value? hy rfl
  | infinite negative => cases hx
  | undefined => cases hx

/-- A product is where its exact result is rounded to. -/
theorem same_mul (zero : rounding.round 0 = .finite 0) {x y : Quantity} {p q : Rat}
    (hx : x.value? = some p) (hy : y.value? = some q) :
    Same (x.mul y) (rounding.round (p * q)) := by
  rw [mul, hx, hy]
  dsimp only
  split
  · rename_i h
    rw [h, zero]
    exact same_zero _
  · exact .refl _

/-- A span of time: where it begins and how long it lasts, both of it on the grid. -/
structure IsSpan (x y : Quantity) (p q : Rat) : Prop where
  begins : x.value? = some p
  beginsOnGrid : x.IsOnGrid
  lasts : y.value? = some q
  lastsOnGrid : y.IsOnGrid
  nonnegative : 0 ≤ q

/-- A share of a length is between zero and the length. -/
theorem IsSpan.exists_share (grid : rounding.IsGrid) (monotone : rounding.IsMonotone)
    {x y share : Quantity} {p q k : Rat} (span : IsSpan x y p q) (hshare : share.value? = some k)
    (hk : 0 ≤ k) (hk' : k ≤ 1) : ∃ r, (y.mul share).value? = some r ∧ 0 ≤ r ∧ r ≤ q := by
  have hlow := monotone.monotone 0 (q * k) (mul_nonneg span.nonnegative hk)
  have hhigh := monotone.monotone (q * k) q (mul_le_of_le_one_right span.nonnegative hk')
  rw [monotone.zero] at hlow
  rw [grid.fixed q (span.lastsOnGrid q span.lasts)] at hhigh
  obtain ⟨r, hr, hle, hvalue⟩ := exists_finite_of_le hlow hhigh
  exact ⟨r, (same_mul monotone.zero span.lasts hshare).value?_eq.trans hvalue, hr, hle⟩

/-! ## Sums with one time -/

theorem infinite_add_of_defined {negative : Bool} {x : Quantity}
    (h : (infinite negative).add x ≠ .undefined) :
    (infinite negative).add x = .infinite negative := by
  cases x with
  | infinite other =>
    rw [add] at h ⊢
    split at h
    · rw [if_pos ‹_›]
    · exact absurd rfl h
  | undefined => exact absurd rfl h
  | _ => rfl

theorem add_infinite_of_value? {x : Quantity} {p : Rat} (hx : x.value? = some p)
    (negative : Bool) : x.add (.infinite negative) = .infinite negative := by
  cases x <;> first | rfl | cases hx

theorem add_undefined (x : Quantity) : x.add .undefined = .undefined := by
  cases x <;> rfl

/-- The sums of one time with two lengths are in the order of the lengths. -/
theorem add_le_add_of_defined (grid : rounding.IsGrid) (monotone : rounding.IsMonotone)
    {x y z : Quantity} (hx : x.IsOnGrid) (hy : y.IsOnGrid) (hz : z.IsOnGrid)
    (h : y.le z = true) (hxy : x.add y ≠ .undefined) (hxz : x.add z ≠ .undefined) :
    (x.add y).le (x.add z) = true := by
  cases hvalue : x.value? with
  | some p =>
    cases hlow : y.value? with
    | some q =>
      rcases value?_or_endless_of_le hlow h with ⟨r, hqr, hhigh⟩ | rfl
      · rw [Same.le_eq (same_add grid hvalue hlow hx hy) (same_add grid hvalue hhigh hx hz)]
        exact monotone.monotone (p + q) (p + r) (by linarith)
      · rw [add_infinite_of_value? hvalue]
        exact le_infinite hxy
    | none =>
      rcases y with q | - | (- | -) | - <;> cases hlow
      · cases eq_endless_of_le h
        exact le_refl hxy
      · rw [add_infinite_of_value? hvalue]
        exact infinite_le hxz
      · exact absurd rfl (le_defined h).1
  | none =>
    -- an infinity stays where it is, whatever is added to it
    rcases x with p | - | negative | - <;> cases hvalue
    · rw [infinite_add_of_defined hxy, infinite_add_of_defined hxz]
      exact le_refl (by rintro ⟨⟩)
    · exact absurd rfl hxy

/-- **Of two sums with one time, the one with the longer length is not the earlier one.** -/
theorem add_lt_add_left (grid : rounding.IsGrid) (monotone : rounding.IsMonotone)
    {x y z : Quantity} (hx : x.IsOnGrid) (hy : y.IsOnGrid) (hz : z.IsOnGrid)
    (h : z.lt y = false) : (x.add z).lt (x.add y) = false := by
  by_cases hxy : x.add y = .undefined
  · rw [hxy, lt_undefined]
  by_cases hxz : x.add z = .undefined
  · rw [hxz, undefined_lt]
  have hydefined : y ≠ .undefined := fun hy ↦ hxy (hy ▸ add_undefined x)
  have hzdefined : z ≠ .undefined := fun hz ↦ hxz (hz ▸ add_undefined x)
  rw [lt_eq_false hxz hxy]
  have hle : y.le z = true := (lt_eq_false hzdefined hydefined).mp h
  exact add_le_add_of_defined grid monotone hx hy hz hle hxy hxz

/-- Nothing gets earlier by a length that is not below zero. -/
theorem add_lt_self (grid : rounding.IsGrid) (monotone : rounding.IsMonotone) {x y : Quantity}
    (hx : x.IsOnGrid) (hy : y.IsOnGrid) (h : Quantity.le (.finite 0) y = true) :
    (x.add y).lt x = false := by
  have hsame : Same (x.add (.finite 0)) x := by
    cases hvalue : x.value? with
    | some p =>
      have hsum := same_add grid hvalue (y := .finite 0) rfl hx (Quantity.isOnGrid_zero false)
      rw [Rat.add_zero, grid.fixed p (hx p hvalue)] at hsum
      exact hsum.trans (.of_value? rfl hvalue)
    | none => rcases x with p | - | negative | - <;> first | cases hvalue; done | exact .refl _
  have hlater : (x.add y).lt (x.add (.finite 0)) = false :=
    add_lt_add_left grid monotone hx (Quantity.isOnGrid_zero false) hy
      ((lt_eq_false (le_defined h).2 (le_defined h).1).mpr h)
  rwa [Same.lt_eq (.refl _) hsame] at hlater

theorem zero_le_add (signs : rounding.KeepsSigns) {x y : Quantity}
    (hx : Quantity.le (.finite 0) x = true) (hy : Quantity.le (.finite 0) y = true) :
    Quantity.le (.finite 0) (x.add y) = true := by
  by_cases hneg : x = .negativeZero
  · rwa [hneg, negativeZero_add]
  · exact (add_nonnegative signs hx hneg hy).1

end Quantity

/-! ## Shares -/

namespace Number

theorem round_of_toQuantity {n : Int} {x : Quantity} (h : (whole n).toQuantity = .ok x) :
    rounding.round n = x := by
  rw [toQuantity] at h
  split at h <;> cases h
  rfl

/-- A product is on the grid, whatever its factors are. -/
theorem isOnGrid_of_mul (grid : rounding.IsGrid) {m n r : Number} (h : m.mul n = .ok r) :
    r.IsOnGrid := by
  rcases combine_eq_ok h with ⟨a, b, -, -, rfl⟩ | ⟨-, x, y, -, -, rfl⟩
  · trivial
  · exact Quantity.IsOnGrid.mul grid x y

/-- A number between zero and one. -/
def IsShare (n : Number) : Prop := ∃ k, n.value? = some k ∧ 0 ≤ k ∧ k ≤ 1

omit rounding in
theorem IsShare.zero_or_one {n : Int} (h : (whole n).IsShare) : n = 0 ∨ n = 1 := by
  obtain ⟨_, ⟨⟩, hlow, hhigh⟩ := h
  have : 0 ≤ n := by exact_mod_cast hlow
  have : n ≤ 1 := by exact_mod_cast hhigh
  omega

theorem IsShare.exists_toQuantity (grid : rounding.IsGrid) {n : Number} (h : n.IsShare) :
    ∃ x k, n.toQuantity = .ok x ∧ x.value? = some k ∧ 0 ≤ k ∧ k ≤ 1 := by
  cases n with
  | real x =>
    obtain ⟨k, hk, hbounds⟩ := h
    exact ⟨x, k, rfl, hk, hbounds⟩
  | whole n =>
    refine ⟨.finite n, n, grid.toQuantity_whole ?_, rfl, ?_⟩
    · rcases h.zero_or_one with rfl | rfl
      · exact isOnGrid_zero
      · exact isOnGrid_one
    · obtain ⟨_, ⟨⟩, hbounds⟩ := h
      exact hbounds

/-- What a share leaves of one is a share, and it is a whole number only if the share is. -/
theorem isShare_of_sub (grid : rounding.IsGrid) (monotone : rounding.IsMonotone)
    {share rest : Number} (onGrid : share.IsOnGrid) (h : share.IsShare)
    (hrest : (whole 1).sub share = .ok rest) :
    rest.IsShare ∧ ∀ n, rest = .whole n → share = .whole (1 - n) := by
  obtain ⟨k, hk, hlow, hhigh⟩ := h
  rcases combine_eq_ok hrest with ⟨a, b, hone, rfl, rfl⟩ | ⟨hmixed, one, x, hone, hx, rfl⟩
  · cases hone
    cases hk
    refine ⟨⟨_, rfl, ?_, ?_⟩, by rintro n ⟨⟩; rw [sub_sub_cancel]⟩ <;> push_cast <;> linarith
  · cases share with
    | whole b => exact absurd rfl (hmixed 1 b rfl)
    | real y =>
      cases hx
      cases (grid.toQuantity_whole isOnGrid_one).symm.trans hone
      have hvalue : x.value? = some k := hk
      have hneg : x.neg.value? = some (-k) := by rw [Quantity.value?_neg, hvalue]; rfl
      have hsame := Quantity.same_add grid (x := .finite 1) rfl hneg
        (by rintro _ ⟨⟩; exact isOnGrid_one) (Quantity.IsOnGrid.neg onGrid)
      have hzero := monotone.monotone 0 (1 + -k) (by linarith)
      have hunit := monotone.monotone (1 + -k) 1 (by linarith)
      rw [monotone.zero] at hzero
      rw [grid.fixed 1 isOnGrid_one] at hunit
      obtain ⟨r, hr, hr', hround⟩ := Quantity.exists_finite_of_le hzero hunit
      exact ⟨⟨r, hsame.value?_eq.trans hround, hr, hr'⟩, by rintro n ⟨⟩⟩

variable {share start length part next : Number} {x y z : Quantity} {p q : Rat}

/-- A share of the length of a span is between zero and the length. -/
theorem exists_share (grid : rounding.IsGrid) (monotone : rounding.IsMonotone)
    (hshare : share.IsShare) (span : Quantity.IsSpan x y p q) (hlength : length.toQuantity = .ok y)
    (h : length.mul share = .ok part) :
    ∃ w r, part.toQuantity = .ok w ∧ w.value? = some r ∧ w.IsOnGrid ∧ 0 ≤ r ∧ r ≤ q := by
  rcases combine_eq_ok h with ⟨a, b, rfl, rfl, rfl⟩ | ⟨-, x', s, hx, hs, rfl⟩
  · rcases hshare.zero_or_one with rfl | rfl
    · rw [mul_zero]
      exact ⟨.finite 0, 0, grid.toQuantity_whole (k := 0) isOnGrid_zero, rfl,
        Quantity.isOnGrid_zero false, le_rfl, span.nonnegative⟩
    · rw [mul_one]
      exact ⟨y, q, hlength, span.lasts, span.lastsOnGrid, span.nonnegative, le_rfl⟩
  · obtain ⟨_, k, hs', hvalue, hk, hk'⟩ := hshare.exists_toQuantity grid
    cases hlength.symm.trans hx
    cases hs.symm.trans hs'
    obtain ⟨r, hr, hzero, hle⟩ := span.exists_share grid monotone hvalue hk hk'
    exact ⟨_, r, rfl, hr, Quantity.IsOnGrid.mul grid _ _, hzero, hle⟩

/-- **Behind a share of a span** lies what lies behind its start by no more than its length, unless
all numbers are whole: then the whole length is added before anything is rounded. -/
theorem moved_by_share (grid : rounding.IsGrid) (monotone : rounding.IsMonotone)
    (hshare : share.IsShare) (span : Quantity.IsSpan x y p q) (hstart : start.toQuantity = .ok x)
    (hlength : length.toQuantity = .ok y) (hpart : length.mul share = .ok part)
    (hnext : start.add part = .ok next) (hz : next.toQuantity = .ok z) :
    (∃ r, 0 ≤ r ∧ r ≤ q ∧ Quantity.Same z (rounding.round (p + r))) ∨
      share = .whole 1 ∧ ∃ m n, start = .whole m ∧ length = .whole n ∧ next = .whole (m + n) := by
  obtain ⟨w, r, hw, hr, hgrid, hzero, hle⟩ := exists_share grid monotone hshare span hlength hpart
  rcases combine_eq_ok hnext with ⟨m, l, rfl, rfl, rfl⟩ | ⟨-, x', w', hx', hw', rfl⟩
  · rcases combine_eq_ok hpart with ⟨n, j, rfl, rfl, hl⟩ | ⟨-, _, _, -, -, hl⟩
    · cases hl
      rcases hshare.zero_or_one with rfl | rfl
      · rw [mul_zero, add_zero, hstart] at hz
        cases hz
        refine .inl ⟨0, le_rfl, span.nonnegative, ?_⟩
        rw [add_zero, grid.fixed p (span.beginsOnGrid p span.begins)]
        exact .of_value? span.begins rfl
      · exact .inr ⟨rfl, m, n, rfl, rfl, by rw [mul_one]⟩
    · cases hl
  · cases hz
    cases hstart.symm.trans hx'
    cases hw.symm.trans hw'
    exact .inl ⟨r, hzero, hle, Quantity.same_add grid span.begins hr span.beginsOnGrid hgrid⟩

/-! ## Lengths and pauses -/

/-- What is computed with a quantity is computed in limited precision. -/
theorem real_combine {exact : Int → Int → Int} {limited : Quantity → Quantity → Quantity}
    {n : Number} {y : Quantity} (h : n.toQuantity = .ok y) (x : Quantity) :
    combine exact limited (.real x) n = .ok (.real (limited x y)) := by
  rw [combine, h]
  · rfl
  · rintro _ _ ⟨⟩

theorem real_add {n : Number} {y : Quantity} (h : n.toQuantity = .ok y) (x : Quantity) :
    (real x).add n = .ok (.real (x.add y)) :=
  real_combine h x

theorem real_mul {n : Number} {y : Quantity} (h : n.toQuantity = .ok y) (x : Quantity) :
    (real x).mul n = .ok (.real (x.mul y)) :=
  real_combine h x

theorem zero_le_toQuantity (monotone : rounding.IsMonotone) {n : Number} {x : Quantity}
    (h : Number.le 0 n = true) (hx : n.toQuantity = .ok x) : Quantity.le (.finite 0) x = true := by
  cases n with
  | real y => cases hx; exact h
  | whole k =>
    rw [← round_of_toQuantity hx, ← monotone.zero]
    exact monotone.monotone 0 k ((Quantity.le_iff_value? rfl rfl).mp h)

theorem zero_le_add (monotone : rounding.IsMonotone) {m n r : Number} (hm : Number.le 0 m = true)
    (hn : Number.le 0 n = true) (h : m.add n = .ok r) : Number.le 0 r = true := by
  rcases combine_eq_ok h with ⟨a, b, rfl, rfl, rfl⟩ | ⟨-, x, y, hx, hy, rfl⟩
  · have ha : (0 : Rat) ≤ a := (Quantity.le_iff_value? rfl rfl).mp hm
    have hb : (0 : Rat) ≤ b := (Quantity.le_iff_value? rfl rfl).mp hn
    exact (Quantity.le_iff_value? rfl rfl).mpr (by push_cast; exact add_nonneg ha hb)
  · exact Quantity.zero_le_add monotone.toKeepsSigns (zero_le_toQuantity monotone hm hx)
      (zero_le_toQuantity monotone hn hy)

/-- **A length and a pause behind it lead no less far than the length alone**, whichever of the two
are whole numbers, and wherever they begin. -/
theorem add_pause_lt (grid : rounding.IsGrid) (monotone : rounding.IsMonotone)
    {length pause sum : Number} {y z : Quantity} (hlength : length.IsOnGrid)
    (hpause : pause.IsOnGrid) (h : Number.le 0 pause = true) (hy : length.toQuantity = .ok y)
    (hsum : length.add pause = .ok sum) (hz : sum.toQuantity = .ok z) : z.lt y = false := by
  rcases combine_eq_ok hsum with ⟨a, b, rfl, rfl, rfl⟩ | ⟨-, y', w, hy', hw, rfl⟩
  · have hb : (0 : Rat) ≤ b := (Quantity.le_iff_value? rfl rfl).mp h
    have hle := monotone.monotone a (a + b : Int) (by push_cast; linarith)
    rw [round_of_toQuantity hy, round_of_toQuantity hz] at hle
    exact (Quantity.lt_eq_false (Quantity.le_defined hle).2 (Quantity.le_defined hle).1).mpr hle
  · cases hz
    cases hy.symm.trans hy'
    exact Quantity.add_lt_self grid monotone (hlength.toQuantity grid hy)
      (hpause.toQuantity grid hw) (zero_le_toQuantity monotone h hw)

/-! ## Numbers that are not too large -/

/-- Half of the largest power of two on the grid. -/
def modestLimit : Nat := 2 ^ 1022

/-- A number that is not a large whole number. -/
def IsModest (n : Number) : Prop := ∀ k, n = .whole k → k.natAbs ≤ modestLimit

theorem exists_toQuantity_whole (grid : rounding.IsGrid) (monotone : rounding.IsMonotone) {k : Int}
    {limit : Nat} (hlimit : Montage.IsOnGrid limit) (h : k.natAbs ≤ limit) :
    ∃ x, (whole k).toQuantity = .ok x := by
  have hlow := monotone.monotone (-limit) k (by exact_mod_cast (by omega : -(limit : Int) ≤ k))
  have hhigh := monotone.monotone k limit (by exact_mod_cast (by omega : k ≤ limit))
  rw [grid.fixed _ (isOnGrid_neg hlimit)] at hlow
  rw [grid.fixed _ hlimit] at hhigh
  rw [toQuantity]
  split
  · rename_i negative hround
    rw [hround] at hlow hhigh
    cases negative <;> first | cases hlow; done | cases hhigh
  · exact ⟨_, rfl⟩

omit rounding in
theorem isOnGrid_modestLimit : Montage.IsOnGrid modestLimit := by decide +kernel

theorem IsModest.exists_toQuantity (grid : rounding.IsGrid) (monotone : rounding.IsMonotone)
    {n : Number} (h : n.IsModest) : ∃ x, n.toQuantity = .ok x := by
  cases n with
  | real x => exact ⟨x, rfl⟩
  | whole k =>
    exact exists_toQuantity_whole grid monotone isOnGrid_modestLimit (h k rfl)

/-- The sum of two modest numbers can be used as a quantity, also where it is not modest. -/
theorem IsModest.exists_add (grid : rounding.IsGrid) (monotone : rounding.IsMonotone)
    {m n : Number} (hm : m.IsModest) (hn : n.IsModest) :
    ∃ r x, m.add n = .ok r ∧ r.toQuantity = .ok x := by
  obtain ⟨x, hx⟩ := hm.exists_toQuantity grid monotone
  obtain ⟨y, hy⟩ := hn.exists_toQuantity grid monotone
  rcases m with a | x'
  · rcases n with b | y'
    · have hlimit : Montage.IsOnGrid ((2 * modestLimit : Nat) : Rat) := by decide +kernel
      obtain ⟨z, hz⟩ := exists_toQuantity_whole grid monotone (k := a + b) hlimit (by
        have ha := hm a rfl
        have hb := hn b rfl
        omega)
      exact ⟨_, z, rfl, hz⟩
    · exact ⟨_, _, combine_of_toQuantity hx y', rfl⟩
  · cases hx
    exact ⟨_, _, real_add hy x, rfl⟩

end Number
end Montage
