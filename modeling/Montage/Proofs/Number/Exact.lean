import Mathlib.Tactic.Ring
import Montage.Number.Basic
import Montage.Proofs.Number.Sign

/-!
# Sums without rounding

Where nothing is rounded, times that are not below zero add up as one expects: in any order, without
a change in how they compare, and so that moving a window of time and moving the clock back come to
the same.  Infinite times take part, since a source may be cut where it never ends.
-/

set_option autoImplicit false

namespace Montage

theorem Rounding.IsExact.keepsSigns {rounding : Rounding} (exact : rounding.IsExact) :
    rounding.KeepsSigns :=
  ⟨exact 0, fun q hq ↦ .inl ⟨q, hq, exact q⟩⟩

theorem Number.toQuantity_whole [rounding : Rounding] (exact : rounding.IsExact) (n : Int) :
    (Number.whole n).toQuantity = .ok (.finite n) := by
  rw [Number.toQuantity, exact]

/-- A product with a whole number is one with its quantity. -/
theorem Number.mul_whole [Rounding] {n : Int} {y : Quantity}
    (hn : (Number.whole n).toQuantity = .ok y) (x : Quantity) :
    (Number.real x).mul (.whole n) = .ok (.real (x.mul y)) := by
  show ((Number.whole n).toQuantity >>= _) = _
  rw [hn]
  rfl

/-- A quotient of quantities exists unless the divisor is zero. -/
theorem Number.div_real [Rounding] (x y : Quantity) : (Number.real x).div (.real y) =
    if y.eq (.finite 0) then .error .divisionByZero else .ok (.real (x.div y)) := by
  show (if y.eq (.finite 0) = true then _ else _) = _
  split <;> rfl

/-- What is finite has a nearest whole number, and only that. -/
theorem Number.exists_roundWhole (x : Quantity) :
    (∃ n, (Number.real x).roundWhole = .ok n) ↔ x.isFinite = true := by
  cases x <;> simp [roundWhole, Quantity.value?, Quantity.isFinite]

/-- What is finite has a whole part, and only that. -/
theorem Number.exists_wholePart (x : Quantity) :
    (∃ n, (Number.real x).wholePart = .ok n) ↔ x.isFinite = true := by
  cases x <;> simp [wholePart, Quantity.value?, Quantity.isFinite]

namespace Quantity

variable [rounding : Rounding]

/-- Quantities add up in either order, whatever the rounding. -/
theorem add_comm (x y : Quantity) : x.add y = y.add x := by
  rcases x with q | - | b | - <;> rcases y with r | - | c | - <;> try rfl
  · rw [add, add, Rat.add_comm]
  · cases b <;> cases c <;> rfl

/-! ## Values -/

omit rounding in
theorem isFinite_iff {x : Quantity} : x.isFinite = true ↔ ∃ q, x.value? = some q := by
  cases x <;> simp [isFinite, value?]

omit rounding in
theorem le_iff_value? {x y : Quantity} {q r : Rat} (hx : x.value? = some q)
    (hy : y.value? = some r) : x.le y = true ↔ q ≤ r := by
  cases x <;> cases hx <;> cases y <;> cases hy <;>
    simp only [le, lt, eq, Bool.or_eq_true, decide_eq_true_eq, beq_iff_eq, le_iff_lt_or_eq] <;> rfl

omit rounding in
theorem lt_iff_value? {x y : Quantity} {q r : Rat} (hx : x.value? = some q)
    (hy : y.value? = some r) : x.lt y = true ↔ q < r := by
  cases x <;> cases hx <;> cases y <;> cases hy <;> simp only [lt, decide_eq_true_eq] <;> rfl

omit rounding in
theorem eq_iff_value? {x y : Quantity} {q r : Rat} (hx : x.value? = some q)
    (hy : y.value? = some r) : x.eq y = true ↔ q = r := by
  cases x <;> cases hx <;> cases y <;> cases hy <;> simp only [eq, beq_iff_eq] <;> rfl

omit rounding in
theorem value?_of_isFinite {x : Quantity} (hx : x.isFinite = true) : x.value? = some x.value := by
  cases x with
  | finite q => rfl
  | negativeZero => rfl
  | infinite b => cases hx
  | undefined => cases hx

omit rounding in
theorem abs_of_value? {x : Quantity} {q : Rat} (hx : x.value? = some q) : x.abs = .finite |q| := by
  cases x <;> cases hx
  · rw [abs, isNegative]
    by_cases hnegative : q.num < 0
    · rw [if_pos (by simpa using hnegative), neg, if_neg (by omega),
        abs_of_neg (Rat.num_neg.mp hnegative)]
    · rw [if_neg (by simpa using hnegative), abs_of_nonneg (Rat.num_nonneg.mp (by omega))]
  · rw [abs_zero]
    rfl

omit rounding in
theorem unsigned_of_value? {x : Quantity} {q : Rat} (hx : x.value? = some q) :
    x.unsigned = .finite q := by
  cases x <;> cases hx <;> rfl

section

variable (exact : rounding.IsExact)

include exact

theorem value?_add {x y : Quantity} {q r : Rat} (hx : x.value? = some q) (hy : y.value? = some r) :
    (x.add y).value? = some (q + r) := by
  cases x <;> cases hx <;> cases y <;> cases hy <;> simp [add, exact _, value?]

theorem value?_sub {x y : Quantity} {q r : Rat} (hx : x.value? = some q) (hy : y.value? = some r) :
    (x.sub y).value? = some (q - r) := by
  rw [sub, sub_eq_add_neg]
  exact value?_add exact hx (by rw [value?_neg, hy]; rfl)

theorem finite_add (q r : Rat) : (finite q).add (.finite r) = .finite (q + r) := by
  rw [add, exact]

theorem finite_add_of_value? {q : Rat} {y : Quantity} {r : Rat} (hy : y.value? = some r) :
    (Quantity.finite q).add y = .finite (q + r) := by
  cases y <;> cases hy
  · exact finite_add exact q r
  · rw [Rat.add_zero]
    rfl

theorem isFinite_add {x offset : Quantity} (hoffset : offset.isFinite = true) :
    (x.add offset).isFinite = x.isFinite := by
  cases offset with
  | finite o => cases x <;> simp [add, exact _, isFinite]
  | negativeZero => cases x <;> rfl
  | infinite b => cases hoffset
  | undefined => cases hoffset

/-- Times may be added in any order. -/
theorem add_right_comm {x y z : Quantity} (hx : Quantity.le (.finite 0) x = true)
    (hy : Quantity.le (.finite 0) y = true) (hz : Quantity.le (.finite 0) z = true) :
    (x.add y).add z = (x.add z).add y := by
  rw [le_zero_iff] at hx hy hz
  obtain ⟨q, -, rfl⟩ | rfl | rfl := hx <;> obtain ⟨r, -, rfl⟩ | rfl | rfl := hy <;>
    obtain ⟨s, -, rfl⟩ | rfl | rfl := hz <;> simp only [add, exact _, if_true]
  · exact congrArg finite (by ring)
  · exact congrArg finite (by ring)

/-- Nothing is moved to before the offset that it is moved by. -/
theorem le_add {x offset : Quantity} (hx : Quantity.le (.finite 0) x = true)
    (hoffset : Quantity.le (.finite 0) offset = true) : offset.le (x.add offset) = true := by
  rw [le_zero_iff] at hx hoffset
  obtain ⟨q, hq, rfl⟩ | rfl | rfl := hx <;> obtain ⟨o, ho, rfl⟩ | rfl | rfl := hoffset <;>
    simp only [add, exact _, le, lt, eq, Bool.or_eq_true, decide_eq_true_eq] <;>
    simp [value]
  · exact hq.lt_or_eq.imp_right Eq.symm
  · exact hq.lt_or_eq

/-- The later one of two times stays the later one if both are moved. -/
theorem max_add {x y offset : Quantity} (hx : Quantity.le (.finite 0) x = true)
    (hy : Quantity.le (.finite 0) y = true) (hoffset : Quantity.le (.finite 0) offset = true) :
    (x.add offset).max (y.add offset) = (x.max y).add offset := by
  have hmoved : (x.max y).add offset = if x.lt y then y.add offset else x.add offset := by
    rw [max]
    split <;> rfl
  rw [hmoved, max]
  rw [le_zero_iff] at hx hy hoffset
  obtain ⟨o, -, rfl⟩ | rfl | rfl := hoffset
  · have hlt : (x.add (.finite o)).lt (y.add (.finite o)) = x.lt y := by
      rw [Bool.eq_iff_iff]
      obtain ⟨q, -, rfl⟩ | rfl | rfl := hx <;> obtain ⟨r, -, rfl⟩ | rfl | rfl := hy <;>
        simp only [add, exact _, lt, decide_eq_true_eq] <;> simp [value]
    rw [hlt]
  · have hlt : (x.add .negativeZero).lt (y.add .negativeZero) = x.lt y := by
      obtain ⟨q, -, rfl⟩ | rfl | rfl := hx <;> obtain ⟨r, -, rfl⟩ | rfl | rfl := hy <;> rfl
    rw [hlt]
  · have hendless : ∀ z : Quantity, ((∃ q : Rat, 0 ≤ q ∧ z = .finite q) ∨ z = .negativeZero ∨
        z = .infinite false) → z.add (.infinite false) = .infinite false := by
      rintro z (⟨q, -, rfl⟩ | rfl | rfl) <;> rfl
    rw [hendless x hx, hendless y hy, ite_self, ite_self]

theorem foldl_max_add {x offset : Quantity} {xs : List Quantity}
    (hx : Quantity.le (.finite 0) x = true) (hxs : ∀ y ∈ xs, Quantity.le (.finite 0) y = true)
    (hoffset : Quantity.le (.finite 0) offset = true) :
    (xs.map (·.add offset)).foldl max (x.add offset) = (xs.foldl max x).add offset := by
  induction xs generalizing x with
  | nil => rfl
  | cons y xs ih =>
    rw [List.forall_mem_cons] at hxs
    rw [List.map_cons, List.foldl_cons, max_add exact hx hxs.1 hoffset, List.foldl_cons,
      ih (le_zero_max hx) hxs.2]

/-- Going back from a time by an offset. -/
theorem finite_sub {offset : Quantity} (hoffset : offset.isFinite = true) (t : Rat) :
    (Quantity.finite t).sub offset = .finite (t - offset.value) := by
  cases offset with
  | finite o =>
    rw [sub, neg]
    split
    · rename_i ho
      rw [Rat.num_eq_zero.mp ho, value, sub_zero]
      rfl
    · rw [finite_add exact, value, sub_eq_add_neg]
  | negativeZero =>
    show (Quantity.finite t).add (.finite 0) = .finite (t - 0)
    rw [finite_add exact, sub_zero, add_zero]
  | infinite b => cases hoffset
  | undefined => cases hoffset

/-- A time lies before a moved one if the time moved back lies before it. -/
theorem lt_add {offset : Quantity} (hoffset : offset.isFinite = true) (t : Rat) (x : Quantity) :
    Quantity.lt (.finite t) (x.add offset) = ((Quantity.finite t).sub offset).lt x := by
  rw [finite_sub exact hoffset, Bool.eq_iff_iff]
  cases offset with
  | finite o =>
    cases x <;> simp only [add, exact _, lt, decide_eq_true_eq] <;> simp [value, sub_lt_iff_lt_add]
  | negativeZero =>
    cases x <;> simp only [add, lt, decide_eq_true_eq] <;> simp [value]
  | infinite b => cases hoffset
  | undefined => cases hoffset

/-- A moved time lies before another if it lies before the other moved back. -/
theorem add_le {offset : Quantity} (hoffset : offset.isFinite = true) (t : Rat) (x : Quantity) :
    (x.add offset).le (.finite t) = x.le ((Quantity.finite t).sub offset) := by
  rw [finite_sub exact hoffset, Bool.eq_iff_iff]
  cases offset with
  | finite o =>
    cases x <;> simp only [add, exact _, le, lt, eq, Bool.or_eq_true, decide_eq_true_eq] <;>
      simp [value, lt_sub_iff_add_lt, eq_sub_iff_add_eq]
  | negativeZero =>
    cases x <;> simp only [add, le, lt, eq, Bool.or_eq_true, decide_eq_true_eq] <;> simp [value]
  | infinite b => cases hoffset
  | undefined => cases hoffset

end

end Quantity
end Montage
