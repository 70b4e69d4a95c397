import Montage.Json.Basic
import Montage.Number.Reader
import Montage.Text.Split

/-!
# Decoding documents

A document is decoded field by field.  A field that breaks its rule does not stop the others:
`Checked` collects the paths of all failing fields, so that one report names them all.

A field is known by two names, one in camel case and one in snake case; the first wins where both
are written, and a failure is reported under the first.  Keys that no field is known by are
ignored.
-/

set_option autoImplicit false

namespace Montage

open scoped Elementary

/-- The way from the root of a document to one of its fields. -/
abbrev FieldPath := List String

/-- A decoded value, or the paths of the fields that failed. -/
inductive Checked (α : Type) where
  | ok (value : α)
  | failed (paths : List FieldPath)

namespace Checked

variable {α β : Type}

/-- Applies a function to a decoded value. -/
def map (f : α → β) : Checked α → Checked β
  | .ok a => .ok (f a)
  | .failed paths => .failed paths

/-- Applies a decoded function to a decoded value; failures of both sides are kept. -/
def apply (f : Checked (α → β)) (x : Checked α) : Checked β :=
  match f, x with
  | .ok f, .ok a => .ok (f a)
  | .ok _, .failed right => .failed right
  | .failed left, .ok _ => .failed left
  | .failed left, .failed right => .failed (left ++ right)

instance : Functor Checked := ⟨fun f ↦ map f, fun a ↦ map fun _ ↦ a⟩

instance : Applicative Checked where
  pure := .ok
  seq f x := apply f (x ())

/-- A failure of the value as a whole. -/
def reject : Checked α := .failed [[]]

/-- Goes on with a decoded value, by a rule that may fail in turn. -/
def andThen (x : Checked α) (f : α → Checked β) : Checked β :=
  match x with
  | .ok a => f a
  | .failed paths => .failed paths

/-- Keeps a decoded value only if it obeys a rule. -/
def require (p : α → Bool) (x : Checked α) : Checked α :=
  x.andThen fun a ↦ if p a then .ok a else reject

/-- Puts a step in front of the paths of failing fields. -/
def within (step : String) : Checked α → Checked α
  | .ok a => .ok a
  | .failed paths => .failed (paths.map (step :: ·))

/-- The failing fields, sorted and without repetition. -/
def report (paths : List FieldPath) : List String :=
  let names := paths.map fun path ↦ ".".intercalate path
  let sorted := names.mergeSort fun a b ↦ decide (a ≤ b)
  sorted.foldr (fun name rest ↦ if rest.head? = some name then rest else name :: rest) []

/-- The decoded value, or an error that names the failing fields. -/
def toExcept : Checked α → Except Error α
  | .ok a => .ok a
  | .failed paths => .error (.invalid (report paths))

end Checked

/-- A rule that makes a value from a document. -/
abbrev Decoder (α : Type) := Json → Checked α

namespace Decoder

variable {α : Type}

/-! ## Single values -/

/-- Texts are texts only. -/
def text : Decoder String
  | .str s => .ok s
  | _ => .reject

/-- A quantity: a number, a truth value or the text of a number. -/
def quantity [Rounding] : Decoder Quantity
  | .num (.real x) => .ok x
  | .num (.whole n) =>
    match (Number.whole n).toQuantity with
    | .ok x => .ok x
    | .error _ => .reject
  | .bool b => .ok (.finite (if b then 1 else 0))
  | .str s =>
    match readQuantityField s.toList with
    | some x => .ok x
    | none => .reject
  | _ => .reject

/-- The whole number that a quantity is, within 63 bits. -/
def wholeOfQuantity (x : Quantity) : Option Int :=
  match x.value? with
  | some q => if q.den = 1 ∧ q.num.natAbs < 0x8000000000000000 then some q.num else none
  | none => none

/-- A whole number: a whole number, a whole quantity, a truth value or the text of one. -/
def whole : Decoder Int
  | .num (.whole n) => .ok n
  | .num (.real x) =>
    match wholeOfQuantity x with
    | some n => .ok n
    | none => .reject
  | .bool b => .ok (if b then 1 else 0)
  | .str s =>
    match readWholeField s.toList with
    | some n => .ok n
    | none => .reject
  | _ => .reject

/-- A truth value: itself, zero or one, or one of its usual words in any letter case. -/
def flag : Decoder Bool
  | .bool b => .ok b
  | .num n => if n.eq 0 then .ok false else if n.eq 1 then .ok true else .reject
  | .str s =>
    let word := String.ofList (s.toList.map Char.toLower)
    if ["true", "t", "yes", "y", "on", "1"].contains word then .ok true
    else if ["false", "f", "no", "n", "off", "0"].contains word then .ok false
    else .reject
  | _ => .reject

/-- A name from a fixed list. -/
def name (known : String → Option α) : Decoder α
  | .str s =>
    match known s with
    | some a => .ok a
    | none => .reject
  | _ => .reject

/-- Null, or a value of the inner rule. -/
def optional (inner : Decoder α) : Decoder (Option α)
  | .null => .ok none
  | value => (inner value).map some

/-- The rule, with a further condition on its value. -/
def such (inner : Decoder α) (p : α → Bool) : Decoder α := fun value ↦ (inner value).require p

/-! ## Fields -/

/-- The snake case of a name in camel case. -/
def snakeCase (name : String) : String :=
  String.ofList (name.toList.flatMap fun c ↦ if c.isUpper then ['_', c.toLower] else [c])

/-- The value written under one of the names of a field. -/
def written? (name : String) (document : Json) : Option Json :=
  match document.get? name with
  | some value => some value
  | none => document.get? (snakeCase name)

/-- A field that has to be written. -/
def needed (name : String) (inner : Decoder α) : Decoder α := fun document ↦
  (match written? name document with
  | some value => inner value
  | none => .reject).within name

/-- A field with a default. -/
def field (name : String) (default : α) (inner : Decoder α) : Decoder α := fun document ↦
  match written? name document with
  | some value => (inner value).within name
  | none => .ok default

/-- A field that may be null or left out. -/
def optField (name : String) (inner : Decoder α) : Decoder (Option α) :=
  field name none (optional inner)

/-- A field of a document whose fields have their snake case name alone. -/
def plainField (name : String) (default : α) (inner : Decoder α) : Decoder α := fun document ↦
  match document.get? (snakeCase name) with
  | some value => (inner value).within name
  | none => .ok default

/-- A field of such a document that has to be written. -/
def plainNeeded (name : String) (inner : Decoder α) : Decoder α := fun document ↦
  (match document.get? (snakeCase name) with
  | some value => inner value
  | none => .reject).within name

/-- Refuses what is not an object before its fields are looked at. -/
def object (inner : Decoder α) : Decoder α
  | .obj members => inner (.obj members)
  | _ => .reject

/-- Every item of a list by the inner rule; a failing item is known by its place. -/
def items (inner : Decoder α) : Nat → List Json → Checked (List α)
  | _, [] => .ok []
  | place, item :: rest =>
    List.cons <$> (inner item).within (toString place) <*> items inner (place + 1) rest

/-- A list of values. -/
def list (inner : Decoder α) : Decoder (List α)
  | .arr values => items inner 0 values
  | _ => .reject

end Decoder

/-! ## Encoding

The fields of an encoded object stand in the order of their declaration; what is absent is left
out. -/

/-- A member that is always written. -/
def always (key : String) (value : Json) : List (String × Json) := [(key, value)]

/-- A member that is written if there is a value. -/
def ifSome {α : Type} (key : String) (value : Option α) (encode : α → Json) :
    List (String × Json) :=
  match value with
  | some a => [(key, encode a)]
  | none => []

/-- A value, unless it is null. -/
def present? : Json → Option Json
  | .null => none
  | value => some value

namespace Json

/-- A quantity as a document value. -/
def quantity (x : Quantity) : Json := .num (.real x)

/-- A whole number as a document value. -/
def whole (n : Int) : Json := .num (.whole n)

end Json
end Montage
