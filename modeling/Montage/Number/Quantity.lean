import Montage.Number.Rounding

/-!
# Arithmetic of quantities

Each operation computes the exact result of its operands and rounds it once.  What the exact
result does not settle, the sign of a zero and what infinities yield, is settled here.

Comparisons are exact and never round.  An undefined quantity is unequal to everything, itself
included, and is neither below nor above anything.
-/

set_option autoImplicit false

namespace Montage
namespace Quantity

variable [Rounding]

/-! ## Kinds -/

/-- Neither infinite nor undefined. -/
def isFinite : Quantity → Bool
  | .finite _ | .negativeZero => true
  | _ => false

/-- The value of a finite quantity; zero for the others. -/
def value : Quantity → Rat
  | .finite q => q
  | _ => 0

/-- The value of a finite quantity. -/
def value? : Quantity → Option Rat
  | .finite q => some q
  | .negativeZero => some 0
  | _ => none

/-- Whether the quantity carries a minus sign. -/
def isNegative : Quantity → Bool
  | .finite q => q.num < 0
  | .negativeZero => true
  | .infinite negative => negative
  | .undefined => false

/-- Zero with a given sign. -/
def zero (negative : Bool) : Quantity := if negative then .negativeZero else .finite 0

/-! ## Operations -/

/-- The opposite of a quantity. -/
def neg : Quantity → Quantity
  | .finite q => if q.num = 0 then .negativeZero else .finite (-q)
  | .negativeZero => .finite 0
  | .infinite negative => .infinite (!negative)
  | .undefined => .undefined

/-- The distance to zero. -/
def abs (x : Quantity) : Quantity := if x.isNegative then x.neg else x

/-- The sum.  Two negative zeros make a negative zero; opposite infinities make nothing. -/
def add : Quantity → Quantity → Quantity
  | .undefined, _ | _, .undefined => .undefined
  | .infinite a, .infinite b => if a = b then .infinite a else .undefined
  | .infinite a, _ => .infinite a
  | _, .infinite b => .infinite b
  | .negativeZero, y => y
  | x, .negativeZero => x
  | .finite a, .finite b => Rounding.round (a + b)

/-- The difference. -/
def sub (x y : Quantity) : Quantity := x.add y.neg

/-- The product.  Zero times an infinity is nothing. -/
def mul (x y : Quantity) : Quantity :=
  let negative := x.isNegative != y.isNegative
  match x.value?, y.value? with
  | some a, some b => if a * b = 0 then zero negative else Rounding.round (a * b)
  | some a, none => if y = .undefined ∨ a = 0 then .undefined else .infinite negative
  | none, some b => if x = .undefined ∨ b = 0 then .undefined else .infinite negative
  | none, none => if x = .undefined ∨ y = .undefined then .undefined else .infinite negative

/-- The quotient by something other than zero; callers refuse a zero divisor. -/
def div (x y : Quantity) : Quantity :=
  let negative := x.isNegative != y.isNegative
  match x.value?, y.value? with
  | some a, some b => if a = 0 then zero negative else Rounding.round (a / b)
  | some _, none => if y = .undefined then .undefined else zero negative
  | none, some _ => if x = .undefined then .undefined else .infinite negative
  | none, none => .undefined

/-! ## Comparisons -/

/-- Equality of value: zero has one value whatever its sign. -/
def eq : Quantity → Quantity → Bool
  | .undefined, _ | _, .undefined => false
  | .infinite a, .infinite b => a == b
  | .infinite _, _ | _, .infinite _ => false
  | x, y => x.value == y.value

/-- Strictly below. -/
def lt : Quantity → Quantity → Bool
  | .undefined, _ | _, .undefined => false
  | .infinite a, .infinite b => a && !b
  | .infinite a, _ => a
  | _, .infinite b => !b
  | x, y => x.value < y.value

/-- Below or equal. -/
def le (x y : Quantity) : Bool := x.lt y || x.eq y

/-- The first of two unless the second is strictly larger. -/
def max (x y : Quantity) : Quantity := if x.lt y then y else x

/-- The first of two unless the second is strictly smaller. -/
def min (x y : Quantity) : Quantity := if y.lt x then y else x

/-- The quantity that stands for a rational. -/
def ofRat (q : Rat) : Quantity := Rounding.round q

end Quantity
end Montage
