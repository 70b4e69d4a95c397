import Montage.Json.Basic

/-!
# Computing with plain values

The values of a request are plain document values until somebody computes with them.  Then a truth
value counts as a whole number, numbers compute with numbers, and two texts or two lists are added
by putting one behind the other.  What has no result, such as the difference of two texts, is an
operation on the wrong kind of value.
-/

set_option autoImplicit false

namespace Montage

open scoped Elementary
namespace Json

/-! ## Single values -/

/-- The number that a value is. -/
def number (value : Json) : Except Error Number :=
  match value.number? with
  | some n => .ok n
  | none => .error .badKind

/-- A whole number used as a count; truth values count, quantities do not. -/
def count : Json → Except Error Int
  | .bool b => .ok (if b then 1 else 0)
  | .num (.whole n) => .ok n
  | _ => .error .badKind

/-- The text that a value is; what is not a text lacks the operations of one. -/
def asText : Json → Except Error String
  | .str s => .ok s
  | _ => .error .missingField

/-- The text that a pattern is tried on; a pattern can be tried on nothing else. -/
def asSubject : Json → Except Error String
  | .str s => .ok s
  | _ => .error .badKind

/-! ## Comparisons -/

mutual

/-- Whether a value is below or equal to another one.  Numbers compare with numbers and texts with
texts, and lists by their first items that differ. -/
def isAtMost : Json → Json → Except Error Bool
  | .str s, .str t => .ok (decide (s ≤ t))
  | .arr as, .arr bs => itemsAtMost as bs
  | a, b => do return (← a.number).le (← b.number)

/-- Whether a list is below or equal to another one. -/
def itemsAtMost : List Json → List Json → Except Error Bool
  | [], _ => .ok true
  | _ :: _, [] => .ok false
  | a :: as, b :: bs => if a.agrees b then itemsAtMost as bs else isAtMost a b

end

/-- Whether a value is strictly below a number. -/
def isBelow (a : Json) (b : Number) : Except Error Bool := do return (← a.number).lt b

/-! ## Arithmetic -/

/-- The longest text or list that repetition makes. -/
def repeatLimit : Nat := 0x100000000

/-- How often something of a length is repeated; a count below zero repeats nothing. -/
def repetitions (length : Nat) (times : Int) : Except Error Nat :=
  if repeatLimit < length * times.toNat then .error .overflow else .ok times.toNat

variable [Rounding]

/-- The sum of two values. -/
def add : Json → Json → Except Error Json
  | .str s, .str t => .ok (.str (s ++ t))
  | .arr as, .arr bs => .ok (.arr (as ++ bs))
  | a, b => do return .num (← (← a.number).add (← b.number))

/-- The difference of two values. -/
def sub (a b : Json) : Except Error Json := do return .num (← (← a.number).sub (← b.number))

/-- A value times a number; a text or a list is repeated a whole number of times. -/
def times (value : Json) (factor : Number) : Except Error Json := do
  match value with
  | .str s =>
    let n ← repetitions s.length (← (Json.num factor).count)
    return .str (String.join (List.replicate n s))
  | .arr items =>
    let n ← repetitions items.length (← (Json.num factor).count)
    return .arr (List.replicate n items).flatten
  | value => return .num (← (← value.number).mul factor)

end Json
end Montage
