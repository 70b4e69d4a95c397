import Montage.Number.Basic

/-!
# Decimal text of quantities

A quantity is written with the fewest significant digits that read back as the same quantity on
the binary grid; of several such decimals the nearest is taken, and of two equally near ones the
one that ends in an even digit.  Which digits these are (`Quantity.shortest`) is kept apart from
how they are laid out (`Layout`): two layouts are in use, one for commands and messages and one
for caption documents.

Where a fixed number of places is wanted, the exact value is rounded to them (`Quantity.fixed`).
-/

set_option autoImplicit false

namespace Montage

open scoped Elementary

/-! ## Digits -/

/-- A decimal number without sign: `significand * 10 ^ exponent`. -/
structure Decimal where
  significand : Nat
  exponent : Int
  deriving DecidableEq, Repr

namespace Decimal

/-- The number that a decimal stands for. -/
def value (d : Decimal) : Rat := (d.significand : Rat) * (10 : Rat) ^ d.exponent

/-- Drops zeros at the end of the significand, at most `fuel` of them. -/
def dropZeros : Nat → Nat → Int → Decimal
  | 0, s, e => ⟨s, e⟩
  | fuel + 1, s, e => if s % 10 = 0 then dropZeros fuel (s / 10) (e + 1) else ⟨s, e⟩

/-- The digits of the significand, first digit first. -/
def digits (d : Decimal) : List Char := Nat.toDigits 10 d.significand

/-- Where the decimal point stands, counted from before the first digit. -/
def point (d : Decimal) : Int := d.digits.length + d.exponent

end Decimal

/-- The power of ten by which a positive rational is at least one and below ten. -/
def decimalExponent (q : Rat) : Int :=
  let guess : Int := ((Nat.toDigits 10 q.num.natAbs).length : Int) - (Nat.toDigits 10 q.den).length
  if (10 : Rat) ^ guess ≤ q then guess else guess - 1

/-- Whether a rational stands on the binary grid exactly where `q` does. -/
def readsBackAs (q : Rat) (d : Decimal) : Bool := binary64 d.value == .finite q

/-- The decimal with `count` significant digits that reads back as the positive `q`, the nearest
one if both neighbours of `q` do. -/
def decimalWith (q : Rat) (count : Nat) : Option Decimal :=
  let exponent := decimalExponent q + 1 - count
  let scaled := q / (10 : Rat) ^ exponent
  let below : Decimal := ⟨scaled.floor.toNat, exponent⟩
  let above : Decimal := ⟨scaled.floor.toNat + 1, exponent⟩
  let nearest : Decimal := ⟨(nearestInt scaled).toNat, exponent⟩
  match readsBackAs q below, readsBackAs q above with
  | true, true => some nearest
  | true, false => some below
  | false, true => some above
  | false, false => none

/-- The shortest decimal that reads back as the positive `q`, trying `count`, `count + 1` and so
on for `tries` counts; without one, all 17 digits are given. -/
def shortestFrom (q : Rat) : Nat → Nat → Decimal
  | 0, _ =>
    let exponent := decimalExponent q - 16
    ⟨(nearestInt (q / (10 : Rat) ^ exponent)).toNat, exponent⟩
  | tries + 1, count =>
    match decimalWith q count with
    | some d => d
    | none => shortestFrom q tries (count + 1)

/-- The shortest decimal that reads back as the positive `q`: 17 digits are always enough. -/
def shortest (q : Rat) : Decimal :=
  let d := shortestFrom q 17 1
  Decimal.dropZeros 17 d.significand d.exponent

/-! ## Layout -/

/-- How a decimal is laid out. -/
structure Layout where
  /-- Positional notation is used where the point stands above this place … -/
  above : Int
  /-- … and not beyond this one. -/
  upTo : Int
  /-- The least number of digits of an exponent. -/
  exponentWidth : Nat
  deriving DecidableEq, Repr

/-- Numbers in commands, messages and documents of timelines: positional from 0.0001 to below
10^16, and exponents of two digits with a sign. -/
def Layout.plain : Layout := ⟨-4, 16, 2⟩

/-- Numbers in exported caption documents: positional from 0.00001 to below 10^16, and exponents
with a sign and without padding. -/
def Layout.exported : Layout := ⟨-5, 16, 1⟩

/-- Digits padded with zeros on the left. -/
def padZeros (width : Nat) (digits : List Char) : List Char :=
  List.replicate (width - digits.length) '0' ++ digits

/-- The decimal digits of a natural number, padded with zeros on the left. -/
def paddedNat (width n : Nat) : String := String.ofList (padZeros width (Nat.toDigits 10 n))

/-- The text of an exponent, which always carries a sign. -/
def Layout.exponent (layout : Layout) (e : Int) : List Char :=
  'e' :: (if e < 0 then '-' else '+')
    :: padZeros layout.exponentWidth (Nat.toDigits 10 e.natAbs)

/-- The text of a decimal in a layout; a whole value keeps `.0`. -/
def Layout.text (layout : Layout) (d : Decimal) : List Char :=
  let digits := d.digits
  let point := d.point
  if layout.above < point ∧ point ≤ layout.upTo then
    if point ≤ 0 then '0' :: '.' :: List.replicate (-point).toNat '0' ++ digits
    else if digits.length ≤ point.toNat then
      digits ++ List.replicate (point.toNat - digits.length) '0' ++ ['.', '0']
    else digits.take point.toNat ++ '.' :: digits.drop point.toNat
  else
    let exponent := layout.exponent (point - 1)
    match digits with
    | [d] => d :: exponent
    | d :: rest => d :: '.' :: rest ++ exponent
    | [] => exponent

/-! ## Quantities -/

namespace Quantity

/-- The text of a quantity in a layout. -/
def display (layout : Layout) : Quantity → String
  | .finite q =>
    if q.num = 0 then "0.0"
    else if q.num < 0 then String.ofList ('-' :: layout.text (Montage.shortest (-q)))
    else String.ofList (layout.text (Montage.shortest q))
  | .negativeZero => "-0.0"
  | .infinite negative => if negative then "-inf" else "inf"
  | .undefined => "nan"

/-- The text of a quantity with a fixed number of decimal places. -/
def fixed (places : Nat) (x : Quantity) : String :=
  match x.value? with
  | some q =>
    let n := divNearest (q.num.natAbs * 10 ^ places) q.den
    let sign := if x.isNegative then "-" else ""
    let whole := sign ++ toString (n / 10 ^ places)
    if places = 0 then whole else whole ++ "." ++ paddedNat places (n % 10 ^ places)
  | none => x.display .plain

end Quantity

/-! ## Numbers -/

namespace Number

/-- The text of a number that tells whole numbers and quantities apart. -/
def display (layout : Layout) : Number → String
  | .whole n => toString n
  | .real x => x.display layout

/-- The text of a number in a command: a whole value has no fractional part. -/
def text : Number → String
  | .whole n => toString n
  | .real x =>
    match x.value? with
    | some q => if q.den = 1 then toString q.num else x.display .plain
    | none => x.display .plain

end Number
end Montage
