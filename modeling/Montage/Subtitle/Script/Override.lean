import Montage.Animation.Basic
import Montage.Position.Basic
import Montage.Style.Color
import Montage.Style.Basic
import Montage.Text.Match

/-!
# Override tags

In a script the look of a line stands in braces before the text it holds for: a backslash, the
name of a tag, and a value.  Tags are collected over the whole line; of two that say the same, the
later one counts.  A tag that is not known, or that does not end where the next one begins, is
passed over, but a known tag whose value is no number fails.
-/

set_option autoImplicit false

namespace Montage
namespace Script

/-! ## Tags -/

/-- The tags that are read. -/
inductive Tag where
  | align
  | place
  | fade
  | size
  | outline
  | color
  | outlineColor
  | bold
  | slanted
  | underlined
  deriving DecidableEq, Repr

/-- The names of tags, in the order in which they are tried. -/
def tagNames : List (String × Tag) := [
  ("an", .align), ("pos", .place), ("fad", .fade), ("fs", .size), ("bord", .outline),
  ("1c", .color), ("3c", .outlineColor), ("c", .color), ("b", .bold), ("i", .slanted),
  ("u", .underlined)]

/-- The value in front of a text: something in round brackets, a color in hexadecimal digits, or
digits and points.  There may be none. -/
def takeTagValue (s : List Char) : List Char × List Char :=
  match s with
  | '(' :: rest =>
    match lengthThrough ')' rest with
    | 0 => ([], s)
    | n + 1 => (s.take (n + 2), s.drop (n + 2))
  | '&' :: 'H' :: rest =>
    let digits := rest.takeWhile fun c ↦ (hexValue? c).isSome
    let length := digits.length + (if (rest.drop digits.length).head? = some '&' then 3 else 2)
    if digits.isEmpty then ([], s) else (s.take length, s.drop length)
  | _ => s.span fun c ↦ isDecimal c || c == '.'

/-- Whether a tag may end here: at the next one or at the end. -/
def endsTag : List Char → Bool
  | [] => true
  | c :: _ => c == '\\'

/-- A tag in front of a text with its value, and the length of both. -/
def takeTag (s : List Char) : Option ((Tag × List Char) × Nat) :=
  match s with
  | '\\' :: body => tagNames.findSome? fun (name, tag) ↦
    if name.toList.isPrefixOf body then
      let (value, rest) := takeTagValue (body.drop name.length)
      if endsTag rest then some ((tag, trim value), consumed s rest) else none
    else none
  | _ => none

/-- The tags of a block with their values. -/
def tagsOf (block : List Char) : List (Tag × List Char) := allMatches takeTag block

/-! ## Blocks -/

/-- A block between braces in front of a text, and the length with the braces. -/
def takeBlock (s : List Char) : Option (List Char × Nat) :=
  match s with
  | '\x7b' :: rest =>
    match lengthThrough '\x7d' rest with
    | 0 => none
    | n + 1 => some (rest.take n, n + 2)
  | _ => none

/-- The length of a block between braces in front of a text. -/
def blockLength (s : List Char) : Nat := ((takeBlock s).map (·.2)).getD 0

/-- The text without its blocks, and with the marks for line ends and fixed blanks resolved. -/
def visibleText (s : List Char) : List Char :=
  let bare := removeMatches blockLength s
  let broken := replaceAll ['\\', 'n'] ['\n'] (replaceAll ['\\', 'N'] ['\n'] bare)
  replaceAll ['\\', 'h'] [' '] broken

/-! ## Overrides -/

/-- What the tags of a line say. -/
structure Overrides where
  style : Style := {}
  place : Option (Quantity × Quantity) := none
  anchor : Option Anchor := none
  fades : Option (Int × Int) := none
  deriving DecidableEq, Repr

/-- The anchors in the order of the keys of a number pad. -/
def padAnchors : List Anchor := [
  .bottomLeft, .bottomCenter, .bottomRight, .centerLeft, .center, .centerRight, .topLeft,
  .topCenter, .topRight]

/-- The anchor of a key of a number pad. -/
def padAnchor? (n : Int) : Option Anchor := if n ≤ 0 then none else padAnchors[(n - 1).toNat]?

/-- The key of an anchor on a number pad. -/
def padKey (anchor : Anchor) : Nat := padAnchors.idxOf anchor + 1

/-- The two parts of a value in round brackets. -/
def pairOf (value : List Char) : List Char × List Char :=
  cutAt ',' (stripBy (fun c ↦ c == '(' || c == ')') value)

/-- The color of a tag in the notation of documents, if the value is one. -/
def tagColor (value : List Char) (old : Option String) : Option String :=
  (Color.ofScript? value).or old

variable [Rounding]

/-- What the tags say together with one more. -/
def Overrides.add (all : Overrides) (tag : Tag) (value : List Char) : Except Error Overrides := do
  let style := all.style
  match tag with
  | .bold =>
    if value.isEmpty || value == ['0'] then return all
    return { all with style := { style with fontWeight := some "bold" } }
  | .slanted =>
    if value != ['1'] then return all
    return { all with style := { style with fontStyle := some "italic" } }
  | .underlined =>
    if value != ['1'] then return all
    return { all with style := { style with textDecoration := some "underline" } }
  | .color => return { all with style := { style with color := tagColor value style.color } }
  | .outlineColor =>
    return { all with style := { style with strokeColor := tagColor value style.strokeColor } }
  | .size =>
    if value.isEmpty then return all
    return { all with style := { style with fontSize := some (← readQuantity value) } }
  | .outline =>
    if value.isEmpty then return all
    return { all with style := { style with strokeWidth := some (← readQuantity value) } }
  | .align =>
    if value.isEmpty || !value.all isDecimal then return all
    return { all with anchor := padAnchor? (← readWhole value) }
  | .place =>
    let (x, y) := pairOf value
    return { all with place := some (← readQuantity x, ← readQuantity y) }
  | .fade =>
    let (fadeIn, fadeOut) := pairOf value
    let fadeIn ← readWhole fadeIn
    let fadeOut ← if fadeOut.isEmpty then pure 0 else readWhole fadeOut
    return { all with fades := some (fadeIn, fadeOut) }

/-- What some tags say together with those before them. -/
def Overrides.addAll (all : Overrides) (tags : List (Tag × List Char)) : Except Error Overrides :=
  tags.foldlM (fun all tag ↦ all.add tag.1 tag.2) all

/-- What the blocks of a line say. -/
def overridesOf (s : List Char) : Except Error Overrides :=
  ({} : Overrides).addAll ((allMatches takeBlock s).flatMap tagsOf)

namespace Overrides

/-- The style, if the tags say one; it obeys the rules for documents. -/
def styleOf (all : Overrides) : Except Error (Option Style) :=
  if all.style = {} then .ok none else ((Style.decode all.style.encode).toExcept).map some

omit [Rounding] in
/-- The position, if the tags say one. -/
def positionOf (all : Overrides) : Option Position :=
  all.place.map fun (x, y) ↦
    { x := .num (.real x), y := .num (.real y), anchor := all.anchor }

/-- An animation that lasts a number of milliseconds. -/
def fading (motion : Motion) (millis : Int) : Except Error (Option Animation) := do
  let duration ← (Number.whole millis).div 1000
  let document := .obj [("type", .str motion.name), ("duration", .num duration)]
  return some (← (Animation.decode document).toExcept)

/-- The animation, if the tags say one. -/
def animationOf (all : Overrides) : Except Error (Option Animation) :=
  match all.fades with
  | none => .ok none
  | some (fadeIn, fadeOut) =>
    if fadeIn ≠ 0 ∧ fadeOut ≠ 0 then fading .fade (max fadeIn fadeOut)
    else if fadeIn ≠ 0 then fading .fadeIn fadeIn
    else if fadeOut ≠ 0 then fading .fadeOut fadeOut
    else .ok none

end Overrides
end Script
end Montage
