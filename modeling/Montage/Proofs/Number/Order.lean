import Mathlib.Algebra.Order.Ring.Rat
import Mathlib.Order.WithBot
import Montage.Number.Quantity

/-!
# The order of quantities

Among the quantities that are defined, comparison is comparison on the line of the rationals with
an end on either side: `Quantity.rank` is the place on that line, and a zero has one place whatever
its sign.  All that is said here about `lt` and `le` is read off there.

The largest of some quantities is one of them and above the others, as long as the first one is
defined.  The second half says which operations leave the line.  Rounding to the grid never does,
and a sum does only if it has opposite infinities to add.
-/

set_option autoImplicit false

namespace Montage
namespace Quantity

/-! ## Places on the line -/

/-- The place of a defined quantity on the line. -/
def rank : Quantity → WithBot (WithTop Rat)
  | .finite q => ((q : WithTop Rat) : WithBot (WithTop Rat))
  | .negativeZero => ((0 : Rat) : WithTop Rat)
  | .infinite false => ⊤
  | .infinite true | .undefined => ⊥

theorem coe_lt_top (q : Rat) : ((q : WithTop Rat) : WithBot (WithTop Rat)) < ⊤ :=
  WithBot.coe_lt_coe.mpr (WithTop.coe_lt_top q)

theorem lt_iff {x y : Quantity} (hx : x ≠ .undefined) (hy : y ≠ .undefined) :
    x.lt y = true ↔ x.rank < y.rank := by
  rcases x with q | - | (- | -) | - <;> rcases y with r | - | (- | -) | -
  all_goals first | exact absurd rfl hx | exact absurd rfl hy | skip
  all_goals simp [lt]
  all_goals simp only [rank, value, WithBot.coe_lt_coe, WithTop.coe_lt_coe, coe_lt_top, bot_lt_top,
    WithBot.bot_lt_coe, bot_le, le_top]

theorem eq_iff {x y : Quantity} (hx : x ≠ .undefined) (hy : y ≠ .undefined) :
    x.eq y = true ↔ x.rank = y.rank := by
  rcases x with q | - | (- | -) | - <;> rcases y with r | - | (- | -) | -
  all_goals first | exact absurd rfl hx | exact absurd rfl hy | skip
  all_goals simp only [eq, rank, value, WithBot.coe_inj, WithTop.coe_inj, beq_iff_eq,
    (coe_lt_top _).ne, (coe_lt_top _).ne', WithBot.coe_ne_bot, WithBot.bot_ne_coe, bot_ne_top,
    top_ne_bot, Bool.false_eq_true, reduceCtorEq]

theorem le_iff {x y : Quantity} (hx : x ≠ .undefined) (hy : y ≠ .undefined) :
    x.le y = true ↔ x.rank ≤ y.rank := by
  rw [le, Bool.or_eq_true, lt_iff hx hy, eq_iff hx hy, le_iff_lt_or_eq]

/-! ## Comparison -/

theorem lt_defined {x y : Quantity} (h : x.lt y = true) : x ≠ .undefined ∧ y ≠ .undefined := by
  constructor
  · rintro rfl
    simp [lt] at h
  · rintro rfl
    cases x <;> simp [lt] at h

theorem le_defined {x y : Quantity} (h : x.le y = true) : x ≠ .undefined ∧ y ≠ .undefined := by
  constructor
  · rintro rfl
    simp [le, lt, eq] at h
  · rintro rfl
    cases x <;> simp [le, lt, eq] at h

theorem le_refl {x : Quantity} (hx : x ≠ .undefined) : x.le x = true :=
  (le_iff hx hx).mpr le_rfl

theorem le_trans {x y z : Quantity} (hxy : x.le y = true) (hyz : y.le z = true) :
    x.le z = true := by
  obtain ⟨hx, hy⟩ := le_defined hxy
  obtain ⟨-, hz⟩ := le_defined hyz
  exact (le_iff hx hz).mpr (((le_iff hx hy).mp hxy).trans ((le_iff hy hz).mp hyz))

theorem lt_of_lt_of_le {x y z : Quantity} (hxy : x.lt y = true) (hyz : y.le z = true) :
    x.lt z = true := by
  obtain ⟨hx, hy⟩ := lt_defined hxy
  obtain ⟨-, hz⟩ := le_defined hyz
  exact (lt_iff hx hz).mpr (((lt_iff hx hy).mp hxy).trans_le ((le_iff hy hz).mp hyz))

theorem lt_of_le_of_lt {x y z : Quantity} (hxy : x.le y = true) (hyz : y.lt z = true) :
    x.lt z = true := by
  obtain ⟨hx, hy⟩ := le_defined hxy
  obtain ⟨-, hz⟩ := lt_defined hyz
  exact (lt_iff hx hz).mpr (((le_iff hx hy).mp hxy).trans_lt ((lt_iff hy hz).mp hyz))

theorem le_of_lt {x y : Quantity} (h : x.lt y = true) : x.le y = true := by
  rw [le, h, Bool.true_or]

theorem eq_of_le_of_le {x y : Quantity} (hxy : x.le y = true) (hyx : y.le x = true) :
    x.eq y = true := by
  obtain ⟨hx, hy⟩ := le_defined hxy
  exact (eq_iff hx hy).mpr (((le_iff hx hy).mp hxy).antisymm ((le_iff hy hx).mp hyx))

theorem eq_swap (x y : Quantity) : x.eq y = y.eq x := by
  cases x <;> cases y <;> simp only [eq, Bool.beq_comm]

theorem le_total {x y : Quantity} (hx : x ≠ .undefined) (hy : y ≠ .undefined) :
    x.le y = true ∨ y.le x = true := by
  rw [le_iff hx hy, le_iff hy hx]
  exact LinearOrder.le_total _ _

theorem lt_eq_false {x y : Quantity} (hx : x ≠ .undefined) (hy : y ≠ .undefined) :
    x.lt y = false ↔ y.le x = true := by
  rw [← Bool.not_eq_true, lt_iff hx hy, le_iff hy hx, not_lt]

/-! ## Largest quantities -/

theorem foldl_max_mem (x : Quantity) (xs : List Quantity) : xs.foldl max x ∈ x :: xs := by
  induction xs generalizing x with
  | nil => exact List.mem_cons_self
  | cons y xs ih =>
    rw [List.foldl_cons]
    rcases List.mem_cons.mp (ih (x.max y)) with h | h
    · rw [h, max]
      split
      · exact List.mem_cons_of_mem _ List.mem_cons_self
      · exact List.mem_cons_self
    · exact List.mem_cons_of_mem _ (List.mem_cons_of_mem _ h)

theorem foldl_max_undefined (xs : List Quantity) : xs.foldl max .undefined = .undefined := by
  induction xs with
  | nil => rfl
  | cons y xs ih =>
    have hmax : Quantity.undefined.max y = .undefined := by cases y <;> rfl
    rw [List.foldl_cons, hmax, ih]

/-- The largest of some quantities is above each of them that is defined, unless the first one is
undefined. -/
theorem le_foldl_max {x : Quantity} (hx : x ≠ .undefined) (xs : List Quantity) :
    ∀ y ∈ x :: xs, y ≠ .undefined → y.le (xs.foldl max x) = true := by
  induction xs generalizing x with
  | nil =>
    intro y hy hdefined
    rw [List.mem_singleton.mp hy]
    exact le_refl hx
  | cons z xs ih =>
    have hmax : x.max z ≠ .undefined ∧ x.le (x.max z) = true
        ∧ (z ≠ .undefined → z.le (x.max z) = true) := by
      rw [max]
      split
      · rename_i hlt
        exact ⟨(lt_defined hlt).2, le_of_lt hlt, fun hz ↦ le_refl hz⟩
      · rename_i hlt
        refine ⟨hx, le_refl hx, fun hz ↦ (lt_eq_false hx hz).mp ?_⟩
        rwa [Bool.not_eq_true] at hlt
    have hrest := ih hmax.1
    intro y hy hdefined
    rw [List.foldl_cons]
    rcases List.mem_cons.mp hy with rfl | hy
    · exact le_trans hmax.2.1 (hrest _ List.mem_cons_self hmax.1)
    rcases List.mem_cons.mp hy with rfl | hy
    · exact le_trans (hmax.2.2 hdefined) (hrest _ List.mem_cons_self hmax.1)
    · exact hrest y (List.mem_cons_of_mem _ hy) hdefined

/-! ## Finite quantities -/

theorem ne_undefined_of_isFinite {x : Quantity} (h : x.isFinite = true) : x ≠ .undefined := by
  rintro rfl
  simp [isFinite] at h

/-- What is within a finite radius of zero is finite. -/
theorem isFinite_of_abs_le {x radius : Quantity} (hr : radius.isFinite = true)
    (h : x.abs.le radius = true) : x.isFinite = true := by
  rcases x with q | - | b | -
  · rfl
  · rfl
  · cases b <;> cases radius <;> simp_all [abs, isNegative, neg, le, lt, eq, isFinite]
  · simp [abs, isNegative, le, lt, eq] at h

/-! ## Sums -/

variable [Rounding]

/-- What is on the line stays there when something finite is added, as long as rounding does. -/
theorem add_ne_undefined (total : ∀ q, Rounding.round q ≠ .undefined) {x y : Quantity}
    (hx : x ≠ .undefined) (hy : y.isFinite = true) : x.add y ≠ .undefined := by
  rcases x with q | - | b | - <;> rcases y with r | - | c | -
  all_goals simp_all [add, isFinite]

end Quantity

/-- Rounding to the binary grid never leaves the line. -/
theorem binary64_ne_undefined (q : Rat) : binary64 q ≠ .undefined := by
  rw [binary64]
  dsimp only
  split
  · rintro ⟨⟩
  split
  · split <;> rintro ⟨⟩
  split <;> rintro ⟨⟩

end Montage
