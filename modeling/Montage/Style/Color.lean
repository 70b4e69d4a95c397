import Montage.Document.Arithmetic
import Montage.Number.Decimal
import Montage.Number.Reader
import Montage.Text.Split

/-!
# Colors

A color is read from hexadecimal digits, from channel numbers or from a name, and written in two
notations: that of filters, with the channels in the order red, green, blue and an alpha from
zero to one behind them, and that of subtitle scripts, with the channels in the opposite order
behind an alpha that counts the other way.
-/

set_option autoImplicit false

namespace Montage

/-- Three channels from 0 to 255 and an alpha, where one is opaque. -/
structure Color where
  red : Nat
  green : Nat
  blue : Nat
  alpha : Quantity
  deriving DecidableEq, Repr

namespace Color

/-! ## Reading -/

/-- The colors that have a name. -/
def named : List (String × Nat × Nat × Nat) := [
  ("white", 255, 255, 255), ("black", 0, 0, 0), ("red", 255, 0, 0), ("green", 0, 128, 0),
  ("blue", 0, 0, 255), ("yellow", 255, 255, 0), ("cyan", 0, 255, 255), ("magenta", 255, 0, 255),
  ("gray", 128, 128, 128), ("grey", 128, 128, 128), ("orange", 255, 165, 0),
  ("purple", 128, 0, 128), ("pink", 255, 192, 203)]

/-- Whether a character may stand in the text of an alpha. -/
def isAlphaChar (c : Char) : Bool := isDecimal c || c == '.'

/-- The number that two hexadecimal digits stand for. -/
def hexPair (a b : Nat) : Nat := 16 * a + b

variable [Rounding]

/-- A color from hexadecimal digits, with one or two digits for each channel, and possibly an
alpha behind them. -/
def ofHex? (s : List Char) : Option (Except Error Color) :=
  let body := match s with
    | '#' :: rest => some rest
    | '0' :: x :: rest => if x = 'x' ∨ x = 'X' then some rest else none
    | _ => none
  body.bind fun body ↦
  let (digits, rest) := body.span fun c ↦ (hexValue? c).isSome
  let alphaText : Option (Option (List Char)) := match rest with
    | [] => some none
    | '@' :: alpha => if !alpha.isEmpty && alpha.all isAlphaChar then some (some alpha) else none
    | _ => none
  alphaText.bind fun alphaText ↦
  let finish (red green blue : Nat) (alpha : Quantity) : Option (Except Error Color) :=
    some <| match alphaText with
      | none => .ok ⟨red, green, blue, alpha⟩
      | some text => do return ⟨red, green, blue, ← readQuantity text⟩
  match digits.filterMap hexValue? with
  | [r, g, b] => finish (hexPair r r) (hexPair g g) (hexPair b b) (.finite 1)
  | [r, r', g, g', b, b'] => finish (hexPair r r') (hexPair g g') (hexPair b b') (.finite 1)
  | [r, r', g, g', b, b', a, a'] =>
    finish (hexPair r r') (hexPair g g') (hexPair b b')
      (Quantity.div (.finite (hexPair a a' : Nat)) (.finite 255))
  | _ => none

omit [Rounding] in
/-- The parts of a function call with the given name, white space around them dropped; a part may
not be followed by a comma that has nothing behind it. -/
def callParts? (s : List Char) : Option (List (List Char)) :=
  let lower := lowered s
  let body :=
    if "rgba(".toList.isPrefixOf lower then some (s.drop 5)
    else if "rgb(".toList.isPrefixOf lower then some (s.drop 4)
    else none
  body.bind fun body ↦
  match body.getLast? with
  | some ')' => some ((splitAll ',' body.dropLast).map trim)
  | _ => none

/-- A channel number, at most 255. -/
def channel (digits : List Char) : Except Error Nat := do
  let n ← readWhole digits
  return min 255 n.toNat

/-- A color from channel numbers and possibly an alpha, at most one. -/
def ofChannels? (s : List Char) : Option (Except Error Color) :=
  let isNumber (part : List Char) : Bool := !part.isEmpty && part.all isDecimal
  let finish (r g b : List Char) (alpha : Except Error Quantity) : Option (Except Error Color) :=
    if isNumber r && isNumber g && isNumber b then
      some do
        let red ← channel r
        let green ← channel g
        let blue ← channel b
        return ⟨red, green, blue, Quantity.min (.finite 1) (← alpha)⟩
    else none
  match callParts? s with
  | some [r, g, b] => finish r g b (.ok (.finite 1))
  | some [r, g, b, a] =>
    if !a.isEmpty && a.all isAlphaChar then finish r g b (readQuantity a) else none
  | _ => none

omit [Rounding] in
/-- A color from its name. -/
def ofName? (s : List Char) : Option Color :=
  let name := String.ofList (lowered s)
  match named.find? fun entry ↦ entry.1 == name with
  | some (_, r, g, b) => some ⟨r, g, b, .finite 1⟩
  | none => if name == "transparent" then some ⟨0, 0, 0, .finite 0⟩ else none

/-- A color from a text, if the text is one.  A text in the shape of a color may still hold an
alpha or a channel that is no number. -/
def parse (text : String) : Except Error (Option Color) :=
  let s := trim text.toList
  match (ofHex? s).or (ofChannels? s) with
  | some color => color.map some
  | none => .ok (ofName? s)

/-! ## Writing -/

omit [Rounding] in
/-- Opaque white in the notation of subtitle scripts, which stands for a color that is missing. -/
def scriptWhite : String := "&H00FFFFFF"

omit [Rounding] in
/-- A hexadecimal number in capitals with at least two characters, the sign included. -/
def hexText (n : Int) : String :=
  let digits := (Nat.toDigits 16 n.natAbs).map Char.toUpper
  if n < 0 then String.ofList ('-' :: digits)
  else String.ofList (padZeros 2 digits)

/-- The suffix of an alpha in the notation of filters. -/
def alphaSuffix (alpha : Number) : String := "@" ++ (alpha.roundPlaces 3).text

/-- A color in the notation of filters, made more transparent by an opacity.  A text that is no
color stays as it is. -/
def filterText (text : String) (opacity : Option Number) : Except Error String := do
  match ← parse text with
  | none =>
    match opacity with
    | none => return text
    | some o => return if Number.le 1 o then text else text ++ alphaSuffix o
  | some color =>
    let alpha ← match opacity with
      | none => pure (Number.real color.alpha)
      | some o => (Number.real color.alpha).mul o
    let solid := "0x" ++ hexText color.red ++ hexText color.green ++ hexText color.blue
    return if alpha.lt 1 then solid ++ alphaSuffix alpha else solid

/-- A color in the notation of subtitle scripts. -/
def script (color : Color) : Except Error String := do
  let solid ← (← (Number.real color.alpha).mul 255).roundWhole
  return "&H" ++ hexText (255 - solid) ++ hexText color.blue ++ hexText color.green
    ++ hexText color.red

/-- The text of a color in the notation of subtitle scripts; the default stands for a text that is
missing or no color. -/
def scriptText (text : Option String) (default : String) : Except Error String := do
  match ← ((text.filter fun s ↦ !s.isEmpty).mapM parse) with
  | some (some color) => color.script
  | _ => return default

/-- A caller's value for a color in the notation of subtitle scripts; the caller's default stands
for a value that is missing or no color. -/
def scriptFor (value default : Json) : Except Error Json := do
  if !value.isTruthy then return default
  match ← parse (← value.asText) with
  | some color => return .str (← color.script)
  | none => return default

omit [Rounding] in
/-- The color `#RRGGBB` of a color in the notation of subtitle scripts; its alpha is dropped. -/
def ofScript? (text : List Char) : Option String :=
  let digits := (stripBy (· == '&') (trim text)).dropWhile fun c ↦ c == 'H' || c == 'h'
  if digits.all (fun c ↦ (hexValue? c).isSome) && (digits.length == 6 || digits.length == 8) then
    match digits.drop (digits.length - 6) with
    | [b, b', g, g', r, r'] => some (String.ofList ('#' :: [r, r', g, g', b, b'].map Char.toUpper))
    | _ => none
  else none

end Color
end Montage
