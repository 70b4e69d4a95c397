import Montage.Json.Basic
import Montage.Number.Reader

/-!
# Reading JSON

The grammar of JSON with three more number names: `NaN`, `Infinity` and `-Infinity`.  A number
without point and exponent is whole and of any size up to the digit limit; every other number is
a quantity.  A key that is written twice keeps its first place and its last value.

Each step of the reader consumes a character, so the length of the text bounds its depth.
-/

set_option autoImplicit false

namespace Montage
namespace Json

/-! ## Tokens -/

/-- Drops the white space of the JSON grammar. -/
def skipSpace (s : List Char) : List Char :=
  s.dropWhile fun c ↦ c == ' ' || c == '\t' || c == '\n' || c == '\r'

/-- The code unit written with four hexadecimal digits. -/
def takeUnit : List Char → Option (Nat × List Char)
  | a :: b :: c :: d :: rest => do
    let a ← hexValue? a
    let b ← hexValue? b
    let c ← hexValue? c
    let d ← hexValue? d
    return (((a * 16 + b) * 16 + c) * 16 + d, rest)
  | _ => none

/-- The code point of an escape after the letter `u`, which may take a second one with it. -/
def takeEscape (s : List Char) : Option (Nat × List Char) := do
  let (high, rest) ← takeUnit s
  if 0xD800 ≤ high ∧ high ≤ 0xDBFF then
    match rest with
    | '\\' :: 'u' :: more =>
      match takeUnit more with
      | some (low, left) =>
        if 0xDC00 ≤ low ∧ low ≤ 0xDFFF then
          return (0x10000 + (high - 0xD800) * 0x400 + (low - 0xDC00), left)
        else return (high, rest)
      | none => return (high, rest)
    | _ => return (high, rest)
  else return (high, rest)

/-- The character that a letter after a backslash stands for. -/
def simpleEscape? : Char → Option Char
  | '"' => some '"'
  | '\\' => some '\\'
  | '/' => some '/'
  | 'b' => some '\x08'
  | 'f' => some '\x0c'
  | 'n' => some '\n'
  | 'r' => some '\r'
  | 't' => some '\t'
  | _ => none

/-- The code points of a string after its opening quote, and what follows it; `read` holds those so
far, the last one first. -/
def takeString : Nat → List Nat → List Char → Option (List Nat × List Char)
  | 0, _, _ => none
  | _, _, [] => none
  | _ + 1, read, '"' :: rest => some (read.reverse, rest)
  | fuel + 1, read, '\\' :: 'u' :: rest => do
    let (n, left) ← takeEscape rest
    takeString fuel (n :: read) left
  | fuel + 1, read, '\\' :: e :: rest => do
    let c ← simpleEscape? e
    takeString fuel (c.toNat :: read) rest
  | fuel + 1, read, c :: rest =>
    if c = '\\' ∨ c.toNat < 0x20 then none else takeString fuel (c.toNat :: read) rest

/-- The value of a string with the given code points. -/
def ofCodes (codes : List Nat) : Json :=
  if codes.all Nat.isValidChar then .str (repaired codes) else .garbled codes

/-- A number in front of a text.  A point or an exponent without digits is no part of it. -/
def takeNumber (s : List Char) : Except Error (Number × List Char) :=
  let (negative, body) := match s with
    | '-' :: rest => (true, rest)
    | _ => (false, s)
  let (whole, rest) := match body with
    | '0' :: more => (['0'], more)
    | _ => body.span Char.isDigit
  if whole.isEmpty then .error .notJson else
  let (fraction, afterFraction) := match rest with
    | '.' :: more =>
      if (more.takeWhile Char.isDigit).isEmpty then ([], rest) else more.span Char.isDigit
    | _ => ([], rest)
  let (exponent, left) := match afterFraction with
    | e :: more =>
      if e = 'e' ∨ e = 'E' then
        let (minus, digits) := takeSign more
        let (ds, after) := digits.span Char.isDigit
        if ds.isEmpty then (none, afterFraction)
        else (some (if minus then -(natOfDigits ds : Int) else natOfDigits ds), after)
      else (none, afterFraction)
    | [] => (none, afterFraction)
  if fraction.isEmpty && exponent.isNone then
    if digitLimit < whole.length then .error .badValue
    else
      let n := natOfDigits whole
      .ok (.whole (if negative then -(n : Int) else n), left)
  else
    let significand := natOfDigits (whole ++ fraction)
    .ok (.real (quantityOfDecimal negative significand (exponent.getD 0 - fraction.length)), left)

/-- The names in front of a text that stand for values. -/
def takeName (s : List Char) : Option (Json × List Char) :=
  let names : List (String × Json) := [("null", .null), ("true", .bool true),
    ("false", .bool false), ("NaN", .num (.real .undefined)),
    ("Infinity", .num (.real (.infinite false))), ("-Infinity", .num (.real (.infinite true)))]
  (names.find? fun name ↦ name.1.toList.isPrefixOf s).map fun name ↦
    (name.2, s.drop name.1.length)

/-! ## Values -/

mutual

/-- A value in front of a text, and the rest. -/
def takeValue : Nat → List Char → Except Error (Json × List Char)
  | 0, _ => .error .notJson
  | fuel + 1, s =>
    match s with
    | '"' :: rest =>
      match takeString (rest.length + 1) [] rest with
      | some (codes, left) => .ok (ofCodes codes, left)
      | none => .error .notJson
    | '[' :: rest =>
      match skipSpace rest with
      | ']' :: left => .ok (.arr [], left)
      | inner => do
        let (items, left) ← takeItems fuel inner
        return (.arr items, left)
    | '\x7b' :: rest =>
      match skipSpace rest with
      | '\x7d' :: left => .ok (.obj [], left)
      | inner => do
        let (members, left) ← takeMembers fuel inner
        return (ofMembers members, left)
    | _ =>
      match takeName s with
      | some (value, left) => .ok (value, left)
      | none => do
        let (n, left) ← takeNumber s
        return (.num n, left)

/-- The items of a list up to its closing bracket. -/
def takeItems : Nat → List Char → Except Error (List Json × List Char)
  | 0, _ => .error .notJson
  | fuel + 1, s => do
    let (item, rest) ← takeValue fuel s
    match skipSpace rest with
    | ']' :: left => return ([item], left)
    | ',' :: more =>
      let (items, left) ← takeItems fuel (skipSpace more)
      return (item :: items, left)
    | _ => throw .notJson

/-- The members of an object up to its closing brace. -/
def takeMembers : Nat → List Char → Except Error (List (String × Json) × List Char)
  | 0, _ => .error .notJson
  | fuel + 1, s =>
    match s with
    | '"' :: inner =>
      match takeString (inner.length + 1) [] inner with
      | none => .error .notJson
      | some (key, afterKey) =>
        match skipSpace afterKey with
        | ':' :: rest => do
          let (value, rest) ← takeValue fuel (skipSpace rest)
          match skipSpace rest with
          | '\x7d' :: left => return ([(repaired key, value)], left)
          | ',' :: more =>
            let (members, left) ← takeMembers fuel (skipSpace more)
            return ((repaired key, value) :: members, left)
          | _ => throw .notJson
        | _ => .error .notJson
    | _ => .error .notJson

end

/-- Reads a whole document. -/
def read (s : List Char) : Except Error Json := do
  let (value, rest) ← takeValue (2 * s.length + 2) (skipSpace s)
  if (skipSpace rest).isEmpty then return value else throw .notJson

end Json
end Montage
