import Montage.Number.Basic
import Montage.Text.Split
import Montage.Text.Unicode

/-!
# Reading numbers from text

A whole number is a sign and digits; a quantity is a sign and digits with at most one point and at
most one exponent, or the name of an infinity or of what is undefined.  White space around either
is ignored.

Two places have their own rules for what else may stand in a number.  Free text may use the digits
of every script, and a single underscore between two digits.  The fields of a document take Latin
digits alone and put the text into its plain form first: underscores that stand single and inside
the text are left out, and of a whole number also the zeros in front and a fraction of zeros.
-/

set_option autoImplicit false

namespace Montage

/-! ## Digits -/

/-- Which characters are digits, and whether a single underscore may stand between two of them. -/
structure Numerals where
  value? : Char → Option Nat
  underscores : Bool

/-- The value of a Latin digit. -/
def latinDigit? (c : Char) : Option Nat :=
  if '0' ≤ c ∧ c ≤ '9' then some (c.toNat - '0'.toNat) else none

/-- The digits of free text: those of every script, with underscores between them. -/
def Numerals.free : Numerals := ⟨digitValue?, true⟩

/-- The digits of a document's fields: the Latin ones, with nothing between them. -/
def Numerals.latin : Numerals := ⟨latinDigit?, false⟩

namespace Numerals

/-- The values of the digits that go on after a digit, and the rest. -/
def moreDigits (numerals : Numerals) : List Char → List Nat × List Char
  | [] => ([], [])
  | '_' :: c :: rest =>
    match if numerals.underscores then numerals.value? c else none with
    | none => ([], '_' :: c :: rest)
    | some d =>
      let (ds, left) := numerals.moreDigits rest
      (d :: ds, left)
  | c :: rest =>
    match numerals.value? c with
    | none => ([], c :: rest)
    | some d =>
      let (ds, left) := numerals.moreDigits rest
      (d :: ds, left)

/-- The values of the digits in front of a text, and the rest. -/
def takeDigits (numerals : Numerals) : List Char → List Nat × List Char
  | [] => ([], [])
  | c :: rest =>
    match numerals.value? c with
    | none => ([], c :: rest)
    | some d =>
      let (ds, left) := numerals.moreDigits rest
      (d :: ds, left)

end Numerals

/-- The natural number with the given digits. -/
def natOfValues (ds : List Nat) : Nat := ds.foldl (fun n d ↦ 10 * n + d) 0

/-- The sign in front of a text, and the rest. -/
def takeSign : List Char → Bool × List Char
  | '-' :: rest => (true, rest)
  | '+' :: rest => (false, rest)
  | s => (false, s)

/-! ## Whole numbers -/

/-- Reads a whole number of at most `digitLimit` digits from free text. -/
def readWhole (s : List Char) : Except Error Int :=
  let (negative, body) := takeSign (stripBy isSpace s)
  match Numerals.free.takeDigits body with
  | ([], _) => .error .badValue
  | (ds, []) =>
    if digitLimit < ds.length then .error .badValue
    else .ok (if negative then -(natOfValues ds : Int) else natOfValues ds)
  | _ => .error .badValue

/-! ## Quantities -/

/-- The quantity nearest to `significand * 10 ^ exponent`.  Exponents that are out of every range
are settled by the count of digits alone. -/
def quantityOfDecimal (negative : Bool) (significand : Nat) (exponent : Int) : Quantity :=
  let magnitude := ((Nat.toDigits 10 significand).length : Int) + exponent
  if significand = 0 ∨ magnitude < -400 then Quantity.zero negative
  else if 400 < magnitude then .infinite negative
  else
    let value : Rat := (significand : Rat) * (10 : Rat) ^ exponent
    binary64 (if negative then -value else value)

/-- The exponent at the end of a number: none at all, or a letter, a sign and digits. -/
def readExponent (numerals : Numerals) : List Char → Option Int
  | [] => some 0
  | c :: rest =>
    if c = 'e' ∨ c = 'E' then
      let (negative, body) := takeSign rest
      match numerals.takeDigits body with
      | ([], _) => none
      | (ds, []) => some (if negative then -(natOfValues ds : Int) else natOfValues ds)
      | _ => none
    else none

/-- Reads the digits, point and exponent of a quantity without its sign. -/
def readUnsigned (numerals : Numerals) (negative : Bool) (s : List Char) :
    Option Quantity :=
  let (whole, rest) := numerals.takeDigits s
  let (fraction, rest) := match rest with
    | '.' :: more => numerals.takeDigits more
    | _ => ([], rest)
  if whole.isEmpty && fraction.isEmpty then none
  else (readExponent numerals rest).map fun exponent ↦
    quantityOfDecimal negative (natOfValues (whole ++ fraction)) (exponent - fraction.length)

/-- The names of quantities that have no digits. -/
def namedQuantity? (negative : Bool) (s : List Char) : Option Quantity :=
  let name := String.ofList (s.map Char.toLower)
  if name == "inf" || name == "infinity" then some (.infinite negative)
  else if name == "nan" then some .undefined
  else none

/-- Reads a quantity that is written with the given numerals. -/
def readQuantityBy (numerals : Numerals) (s : List Char) : Option Quantity :=
  let (negative, body) := takeSign s
  match namedQuantity? negative body with
  | some x => some x
  | none => readUnsigned numerals negative body

/-- Reads a quantity from free text. -/
def readQuantity (s : List Char) : Except Error Quantity :=
  match readQuantityBy .free (stripBy isSpace s) with
  | some x => .ok x
  | none => .error .badValue

/-! ## Fields of a document -/

/-- The text without its underscores, if it has any: they stand single and inside the text. -/
def withoutUnderscores? (s : List Char) : Option (List Char) :=
  if s.head? = some '_' || s.getLast? = some '_' || !s.contains '_' || occursIn ['_', '_'] s then
    none
  else some (s.filter (· ≠ '_'))

/-- Reads a whole number in its plain form: at most a minus sign, and digits of which the first is
no zero unless it is the only one. -/
def plainWhole? (s : List Char) : Option Int :=
  let (negative, digits) := match s with
    | '-' :: rest => (true, rest)
    | _ => (false, s)
  let leads := digits.head? = some '0' && digits ≠ ['0']
  if digits.isEmpty || leads || digitLimit < digits.length || !digits.all Char.isDigit then none
  else some (if negative then -(natOfDigits digits : Int) else natOfDigits digits)

/-- Drops the zeros and underscores behind a zero, `last` being the character before the text.
A digit or a minus sign ends them; before a point, and at the end, the last of them stays. -/
def afterZeros? (last : Char) : List Char → Option (List Char)
  | [] => some [last]
  | c :: rest =>
    if c = '0' ∨ c = '_' then afterZeros? c rest
    else if c.isDigit ∨ c = '-' then some (c :: rest)
    else if c = '.' then some (last :: c :: rest)
    else none

/-- Drops the zeros in front of a whole number. -/
def withoutZeros? : List Char → Option (List Char)
  | '0' :: rest => afterZeros? '0' rest
  | c :: rest => if c.isDigit ∨ c = '-' then some (c :: rest) else none
  | [] => none

/-- Drops a fraction that consists of zeros. -/
def withoutFraction (s : List Char) : List Char :=
  match s.span (· ≠ '.') with
  | (whole, _ :: zeros) => if !zeros.isEmpty && zeros.all (· == '0') then whole else s
  | _ => s

/-- The plain form of a whole number that is not in its plain form. -/
def plainForm? (s : List Char) : Option (List Char) := do
  let body ← match stripBy isSpace s with
    | '+' :: '-' :: _ => none
    | '+' :: rest => some rest
    | body => some body
  let short := withoutFraction (← withoutZeros? body)
  match withoutUnderscores? short with
  | some bare => some bare
  | none => if short.length = s.length then none else some short

/-- Reads the whole number of a document's field. -/
def readWholeField (s : List Char) : Option Int :=
  (plainWhole? s).or ((plainForm? s).bind plainWhole?)

/-- Reads the quantity of a document's field.  White space is ignored only where no underscore has
to be left out. -/
def readQuantityField (s : List Char) : Option Quantity :=
  (readQuantityBy .latin (stripBy isSpace s)).or
    ((withoutUnderscores? s).bind (readQuantityBy .latin))


end Montage
