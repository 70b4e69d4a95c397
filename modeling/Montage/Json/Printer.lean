import Montage.Json.Basic

/-!
# Writing JSON

One printer serves every document this library writes; a `Format` says in what the documents
differ: whether they are spread over lines, whether other characters than those of ASCII are
escaped, and how quantities are written.
-/

set_option autoImplicit false

namespace Montage
namespace Json

/-- How a document is written. -/
structure Format where
  /-- The indentation of one level; without it the document stands on one line. -/
  indent : Option String
  /-- Whether characters beyond ASCII are escaped. -/
  asciiOnly : Bool
  /-- How quantities are laid out. -/
  layout : Layout
  /-- Whether infinities and undefined quantities have names; otherwise they are null. -/
  namesAll : Bool

/-- Documents of timelines: ASCII. -/
def Format.timeline (indent : Option String) : Format := ⟨indent, true, .plain, true⟩

/-- Caption documents. -/
def Format.captions (indent : Option String) : Format := ⟨indent, false, .plain, true⟩

/-- Exported caption tracks, which know finite numbers alone. -/
def Format.track : Format := ⟨some "  ", false, .exported, false⟩

/-! ## Strings -/

/-- The escape of a code unit. -/
def unitEscape (n : Nat) : List Char := '\\' :: 'u' :: hexDigits 4 n

/-- A character inside a string. -/
def escapedChar (asciiOnly : Bool) (c : Char) : List Char :=
  if c = '"' ∨ c = '\\' then ['\\', c]
  else if c = '\n' then ['\\', 'n']
  else if c = '\r' then ['\\', 'r']
  else if c = '\t' then ['\\', 't']
  else if c = '\x08' then ['\\', 'b']
  else if c = '\x0c' then ['\\', 'f']
  else
    let n := c.toNat
    if n < 0x20 then unitEscape n
    else if !asciiOnly || n < 0x7f then [c]
    else if n < 0x10000 then unitEscape n
    else unitEscape (0xD800 + (n - 0x10000) / 0x400) ++ unitEscape (0xDC00 + (n - 0x10000) % 0x400)

/-- A string between quotes. -/
def stringText (asciiOnly : Bool) (s : String) : String :=
  String.ofList ('"' :: s.toList.flatMap (escapedChar asciiOnly) ++ ['"'])

/-- A code point inside a string; half of a surrogate pair is always escaped. -/
def escapedCode (asciiOnly : Bool) (n : Nat) : List Char :=
  if n.isValidChar then escapedChar asciiOnly (Char.ofNat n) else unitEscape n

/-- A string of code points between quotes. -/
def codesText (asciiOnly : Bool) (codes : List Nat) : String :=
  String.ofList ('"' :: codes.flatMap (escapedCode asciiOnly) ++ ['"'])

/-! ## Values -/

/-- A number.  The names are those that the reader of this library knows. -/
def numberText (format : Format) : Number → String
  | .real .undefined => if format.namesAll then "NaN" else "null"
  | .real (.infinite negative) =>
    if format.namesAll then (if negative then "-Infinity" else "Infinity") else "null"
  | n => n.display format.layout

/-- What stands between an opening bracket and the first item, at a depth of nesting. -/
def Format.lineBreak (format : Format) (depth : Nat) : String :=
  match format.indent with
  | none => ""
  | some indent => "\n" ++ String.join (List.replicate depth indent)

/-- What stands between two items, at a depth of nesting. -/
def Format.separator (format : Format) (depth : Nat) : String :=
  match format.indent with
  | none => ", "
  | some _ => "," ++ format.lineBreak depth

mutual

/-- A value at a depth of nesting. -/
def textAt (format : Format) (depth : Nat) : Json → String
  | .null => "null"
  | .bool b => if b then "true" else "false"
  | .num n => numberText format n
  | .str s => stringText format.asciiOnly s
  | .garbled codes => codesText format.asciiOnly codes
  | .arr [] => "[]"
  | .arr items =>
    "[" ++ format.lineBreak (depth + 1) ++ itemsText format (depth + 1) items
      ++ format.lineBreak depth ++ "]"
  | .obj [] => "\x7b\x7d"
  | .obj members =>
    "\x7b" ++ format.lineBreak (depth + 1) ++ membersText format (depth + 1) members
      ++ format.lineBreak depth ++ "\x7d"

/-- The items of a list, separated. -/
def itemsText (format : Format) (depth : Nat) : List Json → String
  | [] => ""
  | [item] => textAt format depth item
  | item :: rest =>
    textAt format depth item ++ format.separator depth ++ itemsText format depth rest

/-- The members of an object, separated. -/
def membersText (format : Format) (depth : Nat) : List (String × Json) → String
  | [] => ""
  | [(key, value)] => stringText format.asciiOnly key ++ ": " ++ textAt format depth value
  | (key, value) :: rest =>
    stringText format.asciiOnly key ++ ": " ++ textAt format depth value ++ format.separator depth
      ++ membersText format depth rest

end

/-- The text of a document. -/
def text (format : Format) (value : Json) : String := textAt format 0 value

end Json
end Montage
