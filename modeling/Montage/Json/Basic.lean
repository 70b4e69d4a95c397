import Montage.Number.Decimal
import Montage.Text.Quoted

/-!
# Document values

The values of a JSON document.  An object keeps its keys in the order in which they were first
written; writing a key again changes its value and not its place.
-/

set_option autoImplicit false

namespace Montage

/-- A value of a document.  A string that holds half of a surrogate pair is no text; it is kept as
its code points. -/
inductive Json where
  | null
  | bool (b : Bool)
  | num (n : Number)
  | str (s : String)
  | garbled (codes : List Nat)
  | arr (items : List Json)
  | obj (members : List (String × Json))
  deriving Repr, Inhabited

namespace Json

/-! ## Members -/

/-- Writes a key of an object: in place if it is there, at the end otherwise. -/
def put {α : Type} (key : String) (value : α) : List (String × α) → List (String × α)
  | [] => [(key, value)]
  | (k, v) :: rest => if k = key then (k, value) :: rest else (k, v) :: put key value rest

/-- The value of a key. -/
def lookup? {α : Type} (key : String) (members : List (String × α)) : Option α :=
  (members.find? fun member ↦ member.1 == key).map (·.2)

/-- The object that results from writing the members in turn. -/
def ofMembers (members : List (String × Json)) : Json :=
  .obj (members.foldl (fun object member ↦ put member.1 member.2 object) [])

/-- The value of a key, if the value is an object that has it. -/
def get? (key : String) : Json → Option Json
  | .obj members => lookup? key members
  | _ => none

/-! ## Kinds -/

/-- The name of the kind of a value in messages. -/
def kindName : Json → String
  | .null => "NoneType"
  | .bool _ => "bool"
  | .num (.whole _) => "int"
  | .num (.real _) => "float"
  | .str _ | .garbled _ => "str"
  | .arr _ => "list"
  | .obj _ => "dict"

/-- Whether a value counts as present: null, false, zero and what is empty do not. -/
def isTruthy : Json → Bool
  | .null => false
  | .bool b => b
  | .num n => !n.isZero
  | .str s => !s.isEmpty
  | .garbled codes => !codes.isEmpty
  | .arr items => !items.isEmpty
  | .obj members => !members.isEmpty

/-- A truth value counts as a whole number wherever a number is wanted. -/
def number? : Json → Option Number
  | .bool b => some (.whole (if b then 1 else 0))
  | .num n => some n
  | _ => none

/-! ## Free values -/

mutual

/-- A value with null in the place of every quantity that is not finite.  Values without a rule of
their own stand so in documents. -/
def finiteOnly : Json → Json
  | .num (.real x) => if x.isFinite then .num (.real x) else .null
  | .arr items => .arr (finiteItems items)
  | .obj members => .obj (finiteMembers members)
  | value => value

/-- The items of a list, with null for what is not finite. -/
def finiteItems : List Json → List Json
  | [] => []
  | item :: rest => finiteOnly item :: finiteItems rest

/-- The members of an object, with null for what is not finite. -/
def finiteMembers : List (String × Json) → List (String × Json)
  | [] => []
  | (key, value) :: rest => (key, finiteOnly value) :: finiteMembers rest

end

/-! ## Agreement -/

mutual

/-- Whether two values agree: numbers by value, so that an undefined quantity agrees with nothing,
truth values as whole numbers, and objects member by member. -/
def agrees : Json → Json → Bool
  | .null, .null => true
  | .bool a, .bool b => a == b
  | .bool a, .num b => (Number.whole (if a then 1 else 0)).eq b
  | .num a, .bool b => a.eq (.whole (if b then 1 else 0))
  | .num a, .num b => a.eq b
  | .str a, .str b => a == b
  | .garbled a, .garbled b => a == b
  | .arr as, .arr bs => itemsAgree as bs
  | .obj as, .obj bs => membersAgree as bs
  | _, _ => false

/-- Whether the items of two lists agree. -/
def itemsAgree : List Json → List Json → Bool
  | [], [] => true
  | a :: as, b :: bs => agrees a b && itemsAgree as bs
  | _, _ => false

/-- Whether the members of two objects agree. -/
def membersAgree : List (String × Json) → List (String × Json) → Bool
  | [], [] => true
  | (k, a) :: as, (l, b) :: bs => k == l && agrees a b && membersAgree as bs
  | _, _ => false

end

/-! ## Text in messages -/

/-- A string from its code points; what is no character becomes the replacement character. -/
def repaired (codes : List Nat) : String :=
  String.ofList (codes.map fun n ↦ if n.isValidChar then Char.ofNat n else '\uFFFD')

mutual

/-- A value as it is shown inside another one. -/
def inspect : Json → String
  | .null => "None"
  | .bool b => if b then "True" else "False"
  | .num n => n.display .plain
  | .str s => quoted s
  | .garbled codes => quoted (repaired codes)
  | .arr items => "[" ++ inspectItems items ++ "]"
  | .obj members => "\x7b" ++ inspectMembers members ++ "\x7d"

/-- Values of a list, with commas between them. -/
def inspectItems : List Json → String
  | [] => ""
  | [item] => inspect item
  | item :: rest => inspect item ++ ", " ++ inspectItems rest

/-- Members of an object, with commas between them. -/
def inspectMembers : List (String × Json) → String
  | [] => ""
  | [(key, value)] => quoted key ++ ": " ++ inspect value
  | (key, value) :: rest => quoted key ++ ": " ++ inspect value ++ ", " ++ inspectMembers rest

end

/-- A value as it is shown in a message: a text stands there without quotes. -/
def shown : Json → String
  | .str s => s
  | .garbled codes => repaired codes
  | value => value.inspect

end Json
end Montage
