/-!
# Rounding

Two roundings are used in this library and both go to the nearest candidate, a tie to the even
one: a quotient to an integer (`nearestInt`), and a rational to the grid of binary numbers with
53 significant bits (`binary64`).  Everything above this file that computes with quantities of
limited precision takes its rounding from the class `Rounding`, so that the same definitions run
on the binary grid and can be reasoned about over the rationals, where nothing is rounded.
-/

set_option autoImplicit false

namespace Montage

/-! ## Elementary arithmetic

Powers and zero are those of the language, also where a library has found them in structures of its
own. -/

namespace Elementary

scoped instance (priority := high) natPower {α : Type} [NatPow α] : Pow α Nat := instPowNat

scoped instance (priority := high) natZero : Zero Nat := Zero.ofOfNat0

end Elementary

open scoped Elementary

/-! ## To an integer -/

/-- The natural number nearest to `num / den`, a tie going to the even one. -/
def divNearest (num den : Nat) : Nat :=
  let quotient := num / den
  let twice := 2 * (num % den)
  if twice < den ∨ (twice = den ∧ quotient % 2 = 0) then quotient else quotient + 1

/-- The integer nearest to a rational, a tie going to the even one. -/
def nearestInt (q : Rat) : Int :=
  let magnitude := divNearest q.num.natAbs q.den
  if q.num < 0 then -(magnitude : Int) else magnitude

/-- The part of a rational before its point, the sign kept. -/
def truncate (q : Rat) : Int := Int.tdiv q.num q.den

/-- Rounds to a number of decimal places; a negative number of places rounds to tens, hundreds
and so on. -/
def nearestPlace (q : Rat) (places : Int) : Rat :=
  (nearestInt (q * (10 : Rat) ^ places) : Rat) / (10 : Rat) ^ places

/-! ## Quantities -/

/-- A quantity of limited precision: a time, a length in pixels, a ratio.  Zero has a sign, as it
has on the binary grid, and the two ways of leaving the grid are values of their own. -/
inductive Quantity where
  | finite (value : Rat)
  | negativeZero
  | infinite (negative : Bool)
  | undefined
  deriving DecidableEq, Repr, Inhabited

/-- How the exact result of an operation becomes a quantity. -/
class Rounding where
  /-- The quantity that stands for a rational. -/
  round : Rat → Quantity

/-- A rounding is exact if every rational stands for itself. -/
def Rounding.IsExact (rounding : Rounding) : Prop := ∀ q, rounding.round q = .finite q

/-- Arithmetic without any loss. -/
abbrev Rounding.exact : Rounding := ⟨.finite⟩

theorem Rounding.exact_isExact : Rounding.exact.IsExact := fun _ ↦ rfl

/-! ## The binary grid -/

/-- The power of two by which a positive quotient is at least one and below two.  The difference
of the bit lengths is this exponent or one more. -/
def binaryExponent (num den : Nat) : Int :=
  let guess : Int := (Nat.log2 num : Int) - Nat.log2 den
  let fits := if 0 ≤ guess then den * 2 ^ guess.toNat ≤ num else den ≤ num * 2 ^ (-guess).toNat
  if fits then guess else guess - 1

/-- The exponent of the unit in the last place of a positive quotient: 53 bits are kept, fewer
where the unit would fall below the smallest number of the grid. -/
def unitExponent (num den : Nat) : Int := max (binaryExponent num den - 52) (-1074)

/-- The largest power of two that is no longer on the grid. -/
def binaryLimit : Nat := Nat.pow 2 1024

/-- How many units a positive quotient amounts to, to the nearest. -/
def unitCount (num den : Nat) : Nat :=
  let unit := unitExponent num den
  if 0 ≤ unit then divNearest num (den * 2 ^ unit.toNat)
  else divNearest (num * 2 ^ (-unit).toNat) den

/-- Rounds a rational to the nearest number of 53 bits, a tie going to the even one.  What would
round to the limit of the grid or beyond is infinite. -/
def binary64 (q : Rat) : Quantity :=
  if q.num = 0 then .finite 0 else
  let num := q.num.natAbs
  let unit := unitExponent num q.den
  let magnitude : Rat := (unitCount num q.den : Rat) * (2 : Rat) ^ unit
  if magnitude = 0 then (if q.num < 0 then .negativeZero else .finite 0)
  else if (binaryLimit : Rat) ≤ magnitude then .infinite (q.num < 0)
  else .finite (if q.num < 0 then -magnitude else magnitude)

/-- Arithmetic on the binary grid. -/
abbrev Rounding.binary64 : Rounding := ⟨Montage.binary64⟩

end Montage
