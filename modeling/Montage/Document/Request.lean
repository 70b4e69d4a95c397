import Montage.Document.Arithmetic
import Montage.Document.Decoder

/-!
# Requests

A builder is called with values under names.  Its signature lists the names that it knows, each
with a default or without one; a request that uses another name, or leaves out one that has no
default, is no request for that builder.

The values themselves are plain document values; `Document.Arithmetic` computes with them, and the
functions below say how else a builder may use them.
-/

set_option autoImplicit false

namespace Montage

open scoped Elementary

/-- A name that a builder knows, with its default if it has one. -/
structure Parameter where
  name : String
  fallback : Option Json

namespace Parameter

/-- A name that has to be given. -/
def given (name : String) : Parameter := ⟨name, none⟩

/-- A name with a default. -/
def default (name : String) (value : Json) : Parameter := ⟨name, some value⟩

/-- A name that may be left out, which then counts as null. -/
def absent (name : String) : Parameter := ⟨name, some .null⟩

end Parameter

/-- The names a builder knows. -/
abbrev Signature := List Parameter

/-- Values under names. -/
structure Request where
  members : List (String × Json)
  deriving Repr, Inhabited

namespace Request

/-- The request, completed by the defaults of a signature. -/
def complete (signature : Signature) (given : List (String × Json)) : Except Error Request := do
  if given.any fun member ↦ !signature.any fun parameter ↦ parameter.name == member.1 then
    throw .badKind
  let members ← signature.mapM fun parameter ↦
    match (Json.lookup? parameter.name given).or parameter.fallback with
    | some value => .ok (parameter.name, value)
    | none => .error .badKind
  return ⟨members⟩

/-- The value under a name. -/
def get (request : Request) (name : String) : Json :=
  (Json.lookup? name request.members).getD .null

/-- The request as a document. -/
def document (request : Request) : Json := .obj request.members

end Request

namespace Json

/-! ## Values in requests -/

/-- What a value yields when it is gone through: the items of a list, the characters of a text or
the keys of an object. -/
def elements : Json → Except Error (List Json)
  | .arr items => .ok items
  | .str s => .ok (s.toList.map fun c ↦ .str (String.singleton c))
  | .obj members => .ok (members.map fun member ↦ .str member.1)
  | _ => .error .badKind

/-- The indentation that a value asks for: none, a number of blanks, or the text itself.  A number
that no text could have as its length is refused. -/
def indentation : Json → Except Error (Option String)
  | .null => .ok none
  | .str s => .ok (some s)
  | value => do
    let width ← value.count
    if width < -0x8000000000000000 || 0x8000000000000000 ≤ width then throw .overflow
    return some (String.ofList (List.replicate width.toNat ' '))

/-- A value that may serve as the key of a look-up in a table. -/
def asKey : Json → Except Error Json
  | .arr _ | .obj _ => .error .badKind
  | value => .ok value

/-- A member of a value; only objects have members. -/
def member? (key : String) : Json → Except Error (Option Json)
  | .obj members => .ok (lookup? key members)
  | _ => .error .missingField

/-- A quantity from a value: a number, a truth value or the text of a number. -/
def toQuantity [Rounding] : Json → Except Error Quantity
  | .str s => readQuantity s.toList
  | value => do (← value.number).toQuantity

end Json
end Montage
