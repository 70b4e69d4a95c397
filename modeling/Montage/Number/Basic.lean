import Montage.Error
import Montage.Number.Quantity

/-!
# Numbers

A number is a whole number, exact and of any size, or a quantity of limited precision.  Whole
numbers compute among themselves without loss; as soon as one operand is a quantity, the other is
brought to limited precision first and the result is a quantity.

Comparisons look at the exact values, also between the two kinds.
-/

set_option autoImplicit false

namespace Montage

open scoped Elementary

/-- A whole number or a quantity. -/
inductive Number where
  | whole (n : Int)
  | real (x : Quantity)
  deriving DecidableEq, Repr, Inhabited

/-- The most digits with which a whole number is read or written in decimal. -/
def digitLimit : Nat := 4300

namespace Number

instance (n : Nat) : OfNat Number n := ⟨.whole n⟩

/-- The exact value as a quantity, without rounding. -/
def exactly : Number → Quantity
  | .whole n => .finite n
  | .real x => x

/-! ## Comparisons -/

/-- Equality of value, across the two kinds of number. -/
def eq (a b : Number) : Bool := a.exactly.eq b.exactly

/-- Strictly below. -/
def lt (a b : Number) : Bool := a.exactly.lt b.exactly

/-- Below or equal. -/
def le (a b : Number) : Bool := a.exactly.le b.exactly

/-- The first of two unless the second is strictly larger. -/
def max (a b : Number) : Number := if a.lt b then b else a

/-- The first of two unless the second is strictly smaller. -/
def min (a b : Number) : Number := if b.lt a then b else a

/-- Whether the number is zero, of either sign. -/
def isZero (a : Number) : Bool := a.eq 0

/-! ## Size -/

/-- Whether a number has few enough digits to be written in decimal. -/
def isWritable : Number → Bool
  | .whole n => n.natAbs < 10 ^ digitLimit
  | .real _ => true

/-! ## Arithmetic -/

variable [Rounding]

/-- The number as a quantity; a whole number beyond every finite quantity overflows. -/
def toQuantity : Number → Except Error Quantity
  | .real x => .ok x
  | .whole n =>
    match Rounding.round n with
    | .infinite _ => .error .overflow
    | x => .ok x

/-- Computes exactly on whole numbers and in limited precision otherwise. -/
def combine (exact : Int → Int → Int) (limited : Quantity → Quantity → Quantity) :
    Number → Number → Except Error Number
  | .whole a, .whole b => .ok (.whole (exact a b))
  | a, b => do
    let x ← a.toQuantity
    let y ← b.toQuantity
    return .real (limited x y)

/-- The sum. -/
def add : Number → Number → Except Error Number := combine (· + ·) Quantity.add

/-- The difference. -/
def sub : Number → Number → Except Error Number := combine (· - ·) Quantity.sub

/-- The product. -/
def mul : Number → Number → Except Error Number := combine (· * ·) Quantity.mul

/-- The quotient, always a quantity.  A quotient of whole numbers is rounded once from its exact
value, and overflows where that has no finite quantity. -/
def div : Number → Number → Except Error Number
  | .whole a, .whole b =>
    if b = 0 then .error .divisionByZero
    else if a = 0 then .ok (.real (Quantity.zero (b < 0)))
    else match Rounding.round (mkRat a 1 / mkRat b 1) with
      | .infinite _ => .error .overflow
      | x => .ok (.real x)
  | a, b => do
    let x ← a.toQuantity
    let y ← b.toQuantity
    if y.eq (.finite 0) then throw .divisionByZero
    return .real (x.div y)

/-- The opposite number. -/
def neg : Number → Number
  | .whole n => .whole (-n)
  | .real x => .real x.neg

/-- Whether the number is finite; a whole number beyond every finite quantity overflows. -/
def isFinite (a : Number) : Except Error Bool := do
  let x ← a.toQuantity
  return x.isFinite

/-! ## Rounding to places -/

/-- The nearest whole number, a tie going to the even one. -/
def roundWhole : Number → Except Error Int
  | .whole n => .ok n
  | .real x =>
    match x.value? with
    | some q => .ok (nearestInt q)
    | none => .error (if x = .undefined then .badValue else .overflow)

/-- The whole part, the digits after the point being dropped. -/
def wholePart : Number → Except Error Int
  | .whole n => .ok n
  | .real x =>
    match x.value? with
    | some q => .ok (truncate q)
    | none => .error (if x = .undefined then .badValue else .overflow)

end Number

/-- A quantity rounded to a number of decimal places; what is not finite stays. -/
def Quantity.roundPlaces [Rounding] (x : Quantity) (places : Nat) : Quantity :=
  match x.value? with
  | some q =>
    let rounded := nearestPlace q places
    if rounded = 0 then zero x.isNegative else Rounding.round rounded
  | none => x

/-- A number rounded to a number of decimal places; a whole number stays as it is. -/
def Number.roundPlaces [Rounding] (a : Number) (places : Nat) : Number :=
  match a with
  | .whole n => .whole n
  | .real x => .real (x.roundPlaces places)

/-- Refuses a number that is not finite, by the name of what it stands for. -/
def checkFinite [Rounding] (name : String) (render : Number → String) (a : Number) :
    Except Error Unit := do
  if ← a.isFinite then return ()
  throw (.refused (.notFinite name (render a)))

end Montage
