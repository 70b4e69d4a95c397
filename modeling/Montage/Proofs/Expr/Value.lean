import Mathlib.Data.Rat.Cast.Defs
import Mathlib.Data.Rat.Lemmas
import Montage.Proofs.Expr.Grammar
import Montage.Proofs.Number.Landing
import Montage.Proofs.Number.Sign
import Montage.Proofs.Outcome

/-!
# Values of formulas

The value of a formula in a field, where names and functions have been given a meaning.  A rational
is the quotient of its numerator by its denominator, so it has no value in a field where the
denominator is zero, and neither has a quotient by zero.

Constants are folded before a formula gets a value.  Where what they make is their exact result
(`Operation.IsExactOn`), it has the value of the operation in every field (`folded_value`).
-/

set_option autoImplicit false

namespace Montage

variable {K : Type} [Field K] [DecidableEq K]

/-! ## Operations -/

/-- The result of an operation; a quotient by zero has none. -/
def Operation.apply (operation : Operation) (a b : K) : Option K :=
  match operation with
  | .plus => some (a + b)
  | .minus => some (a - b)
  | .times => some (a * b)
  | .dividedBy => if b = 0 then none else some (a / b)

/-- Sums and products are associative, also where the inner operation is a difference or a
quotient. -/
theorem Operation.apply_assoc {outer inner : Operation}
    (hp : inner.precedence = outer.precedence) (hseparates : outer.separatesRight = false)
    {x y z w : K} (h : inner.apply y z = some w) :
    (outer.apply x y).bind (inner.apply · z) = outer.apply x w := by
  cases outer <;> cases inner <;> cases hp <;> cases hseparates
  case plus.plus =>
    cases h
    exact congrArg some (add_assoc x y z)
  case plus.minus =>
    cases h
    exact congrArg some (add_sub_assoc x y z)
  case times.times =>
    cases h
    exact congrArg some (mul_assoc x y z)
  case times.dividedBy =>
    rw [Operation.apply] at h
    split at h
    · cases h
    · rename_i hz
      cases h
      show Operation.dividedBy.apply (x * y) z = some (x * (y / z))
      rw [Operation.apply, if_neg hz, mul_div_assoc]

/-- The value of a rational in a field. -/
def ratIn (K : Type) [Field K] [DecidableEq K] (q : Rat) : Option K :=
  if (q.den : K) = 0 then none else some q

theorem ratIn_eq_some {q : Rat} {a : K} : ratIn K q = some a ↔ (q.den : K) ≠ 0 ∧ (q : K) = a := by
  rw [ratIn]
  split <;> simp [*]

theorem ratIn_intCast (n : Int) : ratIn K n = some (n : K) := by
  rw [ratIn_eq_some, Rat.den_intCast]
  exact ⟨by rw [Nat.cast_one]; exact one_ne_zero, Rat.cast_intCast n⟩

theorem ratIn_neg {q : Rat} {a : K} (h : ratIn K q = some a) : ratIn K (-q) = some (-a) := by
  rw [ratIn_eq_some] at h ⊢
  rw [Rat.den_neg_eq_den, Rat.cast_neg, h.2]
  exact ⟨h.1, rfl⟩

omit [DecidableEq K] in
theorem den_ne_zero_of_dvd {m n k : Nat} (h : k ∣ m * n) (hm : (m : K) ≠ 0) (hn : (n : K) ≠ 0) :
    (k : K) ≠ 0 := by
  obtain ⟨l, hl⟩ := h
  intro hk
  have : (m : K) * n = 0 := by rw [← Nat.cast_mul, hl, Nat.cast_mul, hk, zero_mul]
  exact (mul_ne_zero hm hn) this

/-- What an operation makes of two rationals has the value that it makes of their values. -/
theorem Operation.apply_ratIn {operation : Operation} {x y : Rat} {a b c : K}
    (hx : ratIn K x = some a) (hy : ratIn K y = some b) (h : operation.apply a b = some c) :
    ∃ z, operation.apply x y = some z ∧ ratIn K z = some c := by
  rw [ratIn_eq_some] at hx hy
  obtain ⟨hxden, rfl⟩ := hx
  obtain ⟨hyden, rfl⟩ := hy
  cases operation with
  | plus =>
    cases h
    exact ⟨x + y, rfl, ratIn_eq_some.mpr ⟨den_ne_zero_of_dvd (Rat.add_den_dvd x y) hxden hyden,
      Rat.cast_add_of_ne_zero hxden hyden⟩⟩
  | minus =>
    cases h
    exact ⟨x - y, rfl, ratIn_eq_some.mpr ⟨den_ne_zero_of_dvd (Rat.sub_den_dvd x y) hxden hyden,
      Rat.cast_sub_of_ne_zero hxden hyden⟩⟩
  | times =>
    cases h
    exact ⟨x * y, rfl, ratIn_eq_some.mpr ⟨den_ne_zero_of_dvd (Rat.mul_den_dvd x y) hxden hyden,
      Rat.cast_mul_of_ne_zero hxden hyden⟩⟩
  | dividedBy =>
    rw [Operation.apply] at h
    split at h
    · cases h
    · rename_i hb
      cases h
      have hnum : (y.num : K) ≠ 0 := by
        intro hnum
        rw [Rat.cast_def, hnum, zero_div] at hb
        exact hb rfl
      have hy : y ≠ 0 := by
        rintro rfl
        exact hnum (by rw [Rat.num_zero, Int.cast_zero])
      refine ⟨x / y, by rw [Operation.apply, if_neg hy], ratIn_eq_some.mpr ⟨?_,
        Rat.cast_div_of_ne_zero hxden hnum⟩⟩
      have hinv : ((y⁻¹).den : K) ≠ 0 := by
        rw [Rat.den_inv_of_ne_zero hy]
        intro hden
        obtain habs | habs := Int.natAbs_eq y.num
        · rw [habs, Int.cast_natCast, hden] at hnum
          exact hnum rfl
        · rw [habs, Int.cast_neg, Int.cast_natCast, hden, neg_zero] at hnum
          exact hnum rfl
      rw [div_eq_mul_inv]
      exact den_ne_zero_of_dvd (Rat.mul_den_dvd x y⁻¹) hxden hinv

/-! ## Numbers -/

/-- The value of a finite number. -/
def Number.value? (n : Number) : Option Rat := n.exactly.value?

/-- The value of a finite number in a field. -/
def Number.valueIn (K : Type) [Field K] [DecidableEq K] (n : Number) : Option K :=
  n.value?.bind (ratIn K)

theorem Number.valueIn_eq_some {n : Number} {a : K} :
    n.valueIn K = some a ↔ ∃ q, n.value? = some q ∧ ratIn K q = some a :=
  Option.bind_eq_some_iff

/-- Whether a number, if it is a finite quantity, is on the grid. -/
def Number.IsOnGrid : Number → Prop
  | .whole _ => True
  | .real x => x.IsOnGrid

namespace Quantity

/-- What is equal to a rational has its value. -/
theorem value?_of_eq {x : Quantity} {q : Rat} (h : x.eq (.finite q) = true) :
    x.value? = some q := by
  cases x with
  | finite p => exact congrArg some (beq_iff_eq.mp h)
  | negativeZero => exact congrArg some (beq_iff_eq.mp h)
  | infinite negative => cases h
  | undefined => cases h

end Quantity

theorem Number.value?_neg (n : Number) : n.neg.value? = n.value?.map (- ·) := by
  cases n with
  | whole n => exact congrArg some (by push_cast; rfl)
  | real x => exact x.value?_neg

theorem Number.IsOnGrid.neg {n : Number} (h : n.IsOnGrid) : n.neg.IsOnGrid := by
  cases n with
  | whole n => exact h
  | real x => exact Quantity.IsOnGrid.neg h

theorem Number.valueIn_neg {n : Number} {a : K} (h : n.valueIn K = some a) :
    n.neg.valueIn K = some (-a) := by
  obtain ⟨q, hq, ha⟩ := valueIn_eq_some.mp h
  exact valueIn_eq_some.mpr ⟨-q, by rw [value?_neg, hq]; rfl, ratIn_neg ha⟩

theorem Number.valueIn_of_eq {n : Number} {k : Int} (h : n.eq (.whole k) = true) :
    n.valueIn K = some (k : K) :=
  valueIn_eq_some.mpr ⟨k, Quantity.value?_of_eq h, ratIn_intCast k⟩

/-! ## Constants that are folded -/

section

variable [rounding : Rounding] (grid : rounding.IsGrid)
include grid

theorem Number.IsOnGrid.toQuantity {n : Number} (hn : n.IsOnGrid) {x : Quantity}
    (h : n.toQuantity = .ok x) : x.IsOnGrid := by
  cases n with
  | real y =>
    cases h
    exact hn
  | whole n =>
    rw [Number.toQuantity] at h
    split at h
    · cases h
    · cases h
      exact grid.round _

omit grid in
theorem Number.combine_of_toQuantity {exact : Int → Int → Int}
    {limited : Quantity → Quantity → Quantity} {m : Number} {x : Quantity}
    (h : m.toQuantity = .ok x) (y : Quantity) :
    Number.combine exact limited m (.real y) = .ok (.real (limited x y)) := by
  rw [Number.combine, h]
  · rfl
  · rintro _ _ _ ⟨⟩

omit grid in
/-- Only whole numbers are computed with exactly. -/
theorem Number.combine_eq_ok {exact : Int → Int → Int} {limited : Quantity → Quantity → Quantity}
    {m n r : Number} (h : Number.combine exact limited m n = .ok r) :
    (∃ a b, m = .whole a ∧ n = .whole b ∧ r = .whole (exact a b)) ∨
      (∀ a b, m = .whole a → n ≠ .whole b) ∧
        ∃ x y, m.toQuantity = .ok x ∧ n.toQuantity = .ok y ∧ r = .real (limited x y) := by
  rw [Number.combine.eq_def] at h
  split at h
  · cases h
    exact .inl ⟨_, _, rfl, rfl, rfl⟩
  · rename_i hmixed
    obtain ⟨x, hx, h⟩ := bind_eq_ok.mp h
    obtain ⟨y, hy, h⟩ := bind_eq_ok.mp h
    cases h
    exact .inr ⟨fun a b hm hn ↦ hmixed a b hm hn, x, y, hx, hy, rfl⟩

theorem Number.IsOnGrid.combine {exact : Int → Int → Int}
    {limited : Quantity → Quantity → Quantity}
    (hlimited : ∀ x y : Quantity, x.IsOnGrid → y.IsOnGrid → (limited x y).IsOnGrid) {m n r : Number}
    (hm : m.IsOnGrid) (hn : n.IsOnGrid) (h : Number.combine exact limited m n = .ok r) :
    r.IsOnGrid := by
  rcases combine_eq_ok h with ⟨_, _, -, -, rfl⟩ | ⟨-, x, y, hx, hy, rfl⟩
  · trivial
  · exact hlimited x y (hm.toQuantity grid hx) (hn.toQuantity grid hy)

theorem Number.IsOnGrid.div {m n r : Number} (h : m.div n = .ok r) : r.IsOnGrid := by
  rw [Number.div.eq_def] at h
  split at h
  · split at h
    · cases h
    split at h
    · cases h
      exact Quantity.isOnGrid_zero _
    split at h
    · cases h
    · cases h
      exact grid.round _
  · obtain ⟨x, hx, h⟩ := bind_eq_ok.mp h
    obtain ⟨y, hy, h⟩ := bind_eq_ok.mp h
    split at h
    · cases h
    · cases h
      exact Quantity.IsOnGrid.div grid x y

/-- Constants that are folded stay on the grid. -/
theorem Number.IsOnGrid.folded {operation : Operation} {m n r : Number} (hm : m.IsOnGrid)
    (hn : n.IsOnGrid) (h : Expr.folded operation m n = some (.ok r)) : r.IsOnGrid := by
  cases operation with
  | plus =>
    exact combine grid (fun x y hx hy ↦ Quantity.IsOnGrid.add grid hx hy) hm hn (Option.some.inj h)
  | minus =>
    exact combine grid (fun x y hx hy ↦ Quantity.IsOnGrid.add grid hx hy.neg) hm hn
      (Option.some.inj h)
  | times =>
    exact combine grid (fun x y _ _ ↦ Quantity.IsOnGrid.mul grid x y) hm hn (Option.some.inj h)
  | dividedBy =>
    rw [Expr.folded] at h
    split at h
    · cases h
    · exact div grid (Option.some.inj h)

omit grid in
/-- Whether the constant to which an operation folds two constants is the exact result. -/
def Operation.IsExactOn (operation : Operation) (m n : Number) : Prop :=
  ∀ x y z, m.value? = some x → n.value? = some y → operation.apply x y = some z →
    ∃ r, Expr.folded operation m n = some (.ok r) ∧ r.value? = some z

/-- The opposite of a constant is always exact. -/
theorem Operation.isExactOn_neg {n : Number} (hn : n.IsOnGrid) :
    Operation.times.IsExactOn (.whole (-1)) n := by
  intro x y z hx hy hz
  cases hx
  cases hz
  cases n with
  | whole n =>
    cases hy
    exact ⟨_, rfl, congrArg some (by push_cast; ring)⟩
  | real w =>
    have hone := grid.toQuantity_whole (k := -1) (by decide +kernel)
    have hvalue : w.value? = some y := hy
    have hmul : Expr.folded .times (.whole (-1)) (.real w) =
        some (.ok (.real ((Quantity.finite (-1)).mul w))) := by
      rw [Expr.folded]
      exact congrArg some (Number.combine_of_toQuantity hone w)
    have hneg : Montage.IsOnGrid (-1 * y) := by
      rw [neg_one_mul]
      exact isOnGrid_neg (hn y hvalue)
    refine ⟨_, hmul, ?_⟩
    rw [show (((-1 : Int) : Rat) * y) = -1 * y by norm_num]
    exact Quantity.value?_mul rfl hvalue (grid.fixed _ hneg)

omit grid in
/-- **Folding keeps the value** where it is exact. -/
theorem folded_value {operation : Operation} {m n : Number} {a b c : K}
    (hexact : operation.IsExactOn m n) (hm : m.valueIn K = some a) (hn : n.valueIn K = some b)
    (h : operation.apply a b = some c) :
    ∃ r, Expr.folded operation m n = some (.ok r) ∧ r.valueIn K = some c := by
  obtain ⟨x, hx, ha⟩ := Number.valueIn_eq_some.mp hm
  obtain ⟨y, hy, hb⟩ := Number.valueIn_eq_some.mp hn
  obtain ⟨z, hz, hc⟩ := Operation.apply_ratIn ha hb h
  obtain ⟨r, hr, hrz⟩ := hexact x y z hx hy hz
  exact ⟨r, hr, Number.valueIn_eq_some.mpr ⟨z, hrz, hc⟩⟩

end

/-! ## Formulas -/

/-- What names and functions stand for. -/
structure Interpretation (K : Type) where
  name : String → K
  function : String → List K → K

namespace Formula

variable (I : Interpretation K)

mutual

/-- The value of a formula.  There is none where something is divided by zero. -/
def value : Formula → Option K
  | .num n => n.valueIn K
  | .var name => some (I.name name)
  | .given _ meaning => value meaning
  | .call function args => (values args).map (I.function function)
  | .binary operation a b => (value a).bind fun x ↦ (value b).bind (operation.apply x)
  | .neg a => (value a).map (- ·)

/-- The values of the arguments of a call. -/
def values : List Formula → Option (List K)
  | [] => some []
  | arg :: rest => (value arg).bind fun x ↦ (values rest).map (x :: ·)

end

variable {I}

theorem value_binary_eq_some {operation : Operation} {a b : Formula} {c : K} :
    (binary operation a b).value I = some c ↔
      ∃ x y, a.value I = some x ∧ b.value I = some y ∧ operation.apply x y = some c := by
  rw [value, Option.bind_eq_some_iff]
  constructor
  · rintro ⟨x, hx, h⟩
    obtain ⟨y, hy, h⟩ := Option.bind_eq_some_iff.mp h
    exact ⟨x, y, hx, hy, h⟩
  · rintro ⟨x, y, hx, hy, h⟩
    exact ⟨x, hx, Option.bind_eq_some_iff.mpr ⟨y, hy, h⟩⟩

end Formula

end Montage
