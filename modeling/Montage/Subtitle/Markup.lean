import Montage.Style.Basic
import Montage.Text.Match

/-!
# Inline markup

Bold, slanted and underlined text stands between tags of one letter, and colored text in a font
element.  Reading takes the tags out of a text and makes a style of them; writing puts the tags of
a style round a text.  A style is read only where an opening tag has a closing one behind it, and
then all tags of that letter go.
-/

set_option autoImplicit false

namespace Montage
namespace Markup

/-! ## Tags of one letter -/

/-- The length of an opening tag of a letter in front of a text. -/
def openTag (letter : Char) : List Char → Nat
  | '<' :: c :: '>' :: _ => if isLetter letter c then 3 else 0
  | _ => 0

/-- The length of a closing tag of a letter in front of a text. -/
def closeTag (letter : Char) : List Char → Nat
  | '<' :: '/' :: c :: '>' :: _ => if isLetter letter c then 4 else 0
  | _ => 0

/-- The length of a tag of a letter in front of a text. -/
def tagLength (letter : Char) (s : List Char) : Nat :=
  if openTag letter s = 0 then closeTag letter s else openTag letter s

/-- Whether a closing tag of a letter stands somewhere in the text. -/
def hasClose (letter : Char) (s : List Char) : Bool :=
  (firstMatch? (fun s ↦ if closeTag letter s = 0 then none else some ()) s).isSome

/-- Whether an opening tag of a letter has a closing one behind it. -/
def hasPair (letter : Char) (s : List Char) : Bool :=
  match firstMatch? (fun s ↦ if openTag letter s = 0 then none else some (s.drop 3)) s with
  | some behind => hasClose letter behind
  | none => false

/-- The text without the tags of a letter. -/
def withoutTag (letter : Char) (s : List Char) : List Char := removeMatches (tagLength letter) s

/-! ## Colored text -/

/-- Drops a quotation mark in front. -/
def dropQuote : List Char → List Char
  | c :: rest => if c = '"' ∨ c = '\'' then rest else c :: rest
  | [] => []

/-- The color of a font element that opens in front of a text. -/
def fontColor? (s : List Char) : Option String := do
  let rest ← afterWord? "<font".toList s
  let named := trimFront rest
  if named.length = rest.length then none
  let value := dropQuote (← afterWord? "color=".toList named)
  let color := value.takeWhile fun c ↦ c != '"' && c != '\'' && c != '>'
  if color.isEmpty then none
  match trimFront (dropQuote (value.drop color.length)) with
  | '>' :: _ => some (String.ofList color)
  | _ => none

/-- The length of a font tag, opening or closing, in front of a text. -/
def fontTag (s : List Char) : Nat :=
  match (afterWord? "<font".toList s).or (afterWord? "</font".toList s) with
  | none => 0
  | some rest =>
    match lengthThrough '>' rest with
    | 0 => 0
    | n + 1 => consumed s rest + (n + 1)

/-! ## Reading -/

/-- Takes the tags of a letter out of a text; says whether there was a pair of them. -/
def takeLetter (letter : Char) (s : List Char) : Bool × List Char :=
  if hasPair letter s then (true, withoutTag letter s) else (false, s)

/-- Takes the font tags out of a text, if one of them says a color. -/
def takeFont (s : List Char) : Option String × List Char :=
  match firstMatch? fontColor? s with
  | some color => (some color, removeMatches fontTag s)
  | none => (none, s)

/-- The text without its tags, and the style that they describe, if there are any. -/
def read (s : List Char) : List Char × Option Style :=
  let (bold, s) := takeLetter 'b' s
  let (slanted, s) := takeLetter 'i' s
  let (underlined, s) := takeLetter 'u' s
  let (color, s) := takeFont s
  let style : Style := {
    fontWeight := if bold then some "bold" else none
    fontStyle := if slanted then some "italic" else none
    textDecoration := if underlined then some "underline" else none
    color }
  (s, if bold || slanted || underlined || color.isSome then some style else none)

/-! ## Writing -/

/-- The text between the tags of a letter, if they are wanted. -/
def wrapLetter (letter : String) (wanted : Bool) (text : String) : String :=
  if wanted then "<" ++ letter ++ ">" ++ text ++ "</" ++ letter ++ ">" else text

/-- The text between the tags of a style: bold innermost, the color outermost. -/
def write (style : Option Style) (text : String) : String :=
  match style with
  | none => text
  | some style =>
    let text := wrapLetter "b" style.isBold text
    let text := wrapLetter "i" style.isItalic text
    let text := wrapLetter "u" style.isUnderlined text
    match style.color with
    | none => text
    | some color =>
      if color.isEmpty then text else "<font color=\"" ++ color ++ "\">" ++ text ++ "</font>"

end Markup
end Montage
