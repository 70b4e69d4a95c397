import Montage.Number.Reader
import Montage.Proofs.Number.Grid
import Montage.Proofs.Number.Sign

/-!
# Arithmetic on the grid

A rounding onto the binary grid (`Rounding.IsGrid`) leaves the grid as it is, and what is computed
with it lands there: products and quotients always, since they are rounded, and sums of what is on
the grid.  So does what is read from a text (`readQuantityField_isOnGrid`).
-/

set_option autoImplicit false

namespace Montage

/-! ## The grid ends -/

/-- What is on the grid is below its limit. -/
theorem IsOnGrid.abs_lt {q : Rat} (h : IsOnGrid q) : |q| < binaryLimit := by
  have hpositive : ∀ p : Rat, 0 < p → IsOnGrid p → p < binaryLimit := fun p hp hgrid ↦ by
    obtain ⟨_, _, -, -, -, hlimit⟩ := exists_isUnitOf_of_binary64 hp hgrid hp.ne'
    exact hlimit
  rcases lt_trichotomy q 0 with hneg | rfl | hpos
  · rw [abs_of_neg hneg]
    exact hpositive (-q) (neg_pos.mpr hneg) (isOnGrid_neg h)
  · rw [abs_zero]
    exact lt_binaryLimit (by norm_num)
  · rw [abs_of_pos hpos]
    exact hpositive q hpos h

/-- The whole number nearest to a number of the grid has few digits. -/
theorem IsOnGrid.natAbs_nearestInt_lt {q : Rat} (h : IsOnGrid q) :
    (nearestInt q).natAbs < 10 ^ digitLimit := by
  have hden : (0 : Rat) < q.den := Nat.cast_pos.mpr q.pos
  have habs : |q| = (q.num.natAbs : Rat) / q.den := by
    conv_lhs => rw [← Rat.num_div_den q, abs_div, abs_of_pos hden]
    rw [Nat.cast_natAbs, Int.cast_abs]
  have hquotient : q.num.natAbs / q.den < binaryLimit := by
    rw [Nat.div_lt_iff_lt_mul q.pos]
    have := h.abs_lt
    rw [habs, div_lt_iff₀ hden] at this
    exact_mod_cast this
  have hnearest : (nearestInt q).natAbs ≤ q.num.natAbs / q.den + 1 := by
    have hcount : divNearest q.num.natAbs q.den ≤ q.num.natAbs / q.den + 1 := by
      rw [divNearest]
      split
      · exact Nat.le_succ _
      · exact le_rfl
    rw [nearestInt]
    split
    · rwa [Int.natAbs_neg, Int.natAbs_natCast]
    · rwa [Int.natAbs_natCast]
  calc (nearestInt q).natAbs ≤ q.num.natAbs / q.den + 1 := hnearest
    _ ≤ binaryLimit := hquotient
    _ < 10 ^ digitLimit := by decide +kernel

/-! ## Operations -/

namespace Quantity

protected theorem isOnGrid_zero (negative : Bool) : (zero negative).IsOnGrid := by
  cases negative <;> rintro _ ⟨⟩ <;> exact Montage.isOnGrid_zero

theorem IsOnGrid.neg {x : Quantity} (h : x.IsOnGrid) : x.neg.IsOnGrid := by
  intro q hq
  rw [value?_neg] at hq
  obtain ⟨p, hp, rfl⟩ := Option.map_eq_some_iff.mp hq
  exact isOnGrid_neg (h p hp)

end Quantity

/-- A rounding onto the binary grid, which leaves the grid as it is. -/
structure Rounding.IsGrid (rounding : Rounding) : Prop where
  fixed : ∀ q, Montage.IsOnGrid q → rounding.round q = .finite q
  lands : ∀ q v, rounding.round q = .finite v → Montage.IsOnGrid v

theorem binary64_isGrid : Rounding.IsGrid .binary64 where
  fixed _ h := h
  lands _ _ h := isOnGrid_of_binary64 h

section

variable [rounding : Rounding] (grid : rounding.IsGrid)
include grid

theorem Rounding.IsGrid.round (q : Rat) : (Rounding.round q).IsOnGrid := by
  intro v hv
  cases h : Rounding.round q with
  | finite w =>
    rw [h] at hv
    cases hv
    exact grid.lands q _ h
  | negativeZero =>
    rw [h] at hv
    cases hv
    exact isOnGrid_zero
  | infinite negative =>
    rw [h] at hv
    cases hv
  | undefined =>
    rw [h] at hv
    cases hv

theorem Quantity.IsOnGrid.add {x y : Quantity} (hx : x.IsOnGrid) (hy : y.IsOnGrid) :
    (x.add y).IsOnGrid := by
  unfold Quantity.add
  split
  case h_6 => exact hy
  case h_7 => exact hx
  case h_8 => exact grid.round _
  case h_3 => split <;> rintro _ ⟨⟩
  all_goals rintro _ ⟨⟩

theorem Quantity.IsOnGrid.mul (x y : Quantity) : (x.mul y).IsOnGrid := by
  unfold Quantity.mul
  dsimp only
  split
  · split
    · exact Quantity.isOnGrid_zero _
    · exact grid.round _
  all_goals split <;> rintro _ ⟨⟩

theorem Quantity.IsOnGrid.div (x y : Quantity) : (x.div y).IsOnGrid := by
  unfold Quantity.div
  dsimp only
  split
  · split
    · exact Quantity.isOnGrid_zero _
    · exact grid.round _
  · split
    · rintro _ ⟨⟩
    · exact Quantity.isOnGrid_zero _
  · split <;> rintro _ ⟨⟩
  · rintro _ ⟨⟩

theorem Rounding.IsGrid.toQuantity_whole {k : Int} (h : Montage.IsOnGrid k) :
    (Number.whole k).toQuantity = .ok (.finite k) := by
  rw [Number.toQuantity, grid.fixed _ h]

/-- A natural number of at most 53 bits is a quantity as it is. -/
theorem Rounding.IsGrid.toQuantity_natCast {n : Nat} (h : n < 2 ^ 53) :
    (Number.whole n).toQuantity = .ok (.finite n) := by
  have hgrid : Montage.IsOnGrid ((n : Int) : Rat) := by
    rw [Int.cast_natCast]
    exact isOnGrid_natCast h
  rw [grid.toQuantity_whole hgrid, Int.cast_natCast]

end

/-! ## Reading -/

theorem quantityOfDecimal_isOnGrid (negative : Bool) (significand : Nat) (exponent : Int) :
    (quantityOfDecimal negative significand exponent).IsOnGrid := by
  rw [quantityOfDecimal]
  split
  · exact Quantity.isOnGrid_zero negative
  split
  · rintro _ ⟨⟩
  · exact @Rounding.IsGrid.round .binary64 binary64_isGrid _

theorem readQuantityBy_isOnGrid {numerals : Numerals} {s : List Char} {x : Quantity}
    (h : readQuantityBy numerals s = some x) : x.IsOnGrid := by
  unfold readQuantityBy at h
  obtain ⟨negative, body⟩ := takeSign s
  dsimp only at h
  split at h
  · rename_i y hname
    cases h
    rw [namedQuantity?] at hname
    split_ifs at hname <;> cases hname <;> rintro _ ⟨⟩
  · rw [readUnsigned] at h
    dsimp only at h
    split_ifs at h
    obtain ⟨exponent, -, rfl⟩ := Option.map_eq_some_iff.mp h
    exact quantityOfDecimal_isOnGrid _ _ _

/-- What is read from a text is on the grid. -/
theorem readQuantityField_isOnGrid {s : List Char} {x : Quantity}
    (h : readQuantityField s = some x) : x.IsOnGrid := by
  rcases Option.or_eq_some_iff.mp h with h | ⟨-, h⟩
  · exact readQuantityBy_isOnGrid h
  · obtain ⟨bare, -, h⟩ := Option.bind_eq_some_iff.mp h
    exact readQuantityBy_isOnGrid h

end Montage
