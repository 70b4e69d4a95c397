import Montage.Document.Decoder

/-!
# Styles

How text and captions look.  Every field may be left open; a style is completed by laying it over
another one (`Style.onto`), field by field, and whatever is still open at the end comes from the
built-in style.  There are styles for captions that suit a platform, and pairs of styles for words
that are highlighted while they are spoken.
-/

set_option autoImplicit false

namespace Montage

/-- How text looks, as far as it is said. -/
structure Style where
  fontSize : Option Quantity := none
  fontFamily : Option String := none
  fontFile : Option String := none
  fontWeight : Option String := none
  fontStyle : Option String := none
  textDecoration : Option String := none
  color : Option String := none
  strokeColor : Option String := none
  strokeWidth : Option Quantity := none
  backgroundColor : Option String := none
  backgroundPadding : Option Quantity := none
  shadowColor : Option String := none
  shadowX : Option Quantity := none
  shadowY : Option Quantity := none
  opacity : Option Quantity := none
  scale : Option Quantity := none
  rotation : Option Quantity := none
  lineSpacing : Option Quantity := none
  textAlign : Option String := none
  deriving DecidableEq, Repr

namespace Style

/-! ## Laying styles over each other -/

/-- The fields of the first style, where they are open those of the second. -/
def onto (top base : Style) : Style where
  fontSize := top.fontSize.or base.fontSize
  fontFamily := top.fontFamily.or base.fontFamily
  fontFile := top.fontFile.or base.fontFile
  fontWeight := top.fontWeight.or base.fontWeight
  fontStyle := top.fontStyle.or base.fontStyle
  textDecoration := top.textDecoration.or base.textDecoration
  color := top.color.or base.color
  strokeColor := top.strokeColor.or base.strokeColor
  strokeWidth := top.strokeWidth.or base.strokeWidth
  backgroundColor := top.backgroundColor.or base.backgroundColor
  backgroundPadding := top.backgroundPadding.or base.backgroundPadding
  shadowColor := top.shadowColor.or base.shadowColor
  shadowX := top.shadowX.or base.shadowX
  shadowY := top.shadowY.or base.shadowY
  opacity := top.opacity.or base.opacity
  scale := top.scale.or base.scale
  rotation := top.rotation.or base.rotation
  lineSpacing := top.lineSpacing.or base.lineSpacing
  textAlign := top.textAlign.or base.textAlign

/-- A style with others laid over it in turn; the last one that says something wins. -/
def merged (base : Style) (overrides : List (Option Style)) : Style :=
  overrides.foldl (fun style override ↦ (override.getD {}).onto style) base

/-- What text looks like where nothing is said. -/
def builtIn : Style := { fontSize := some (.finite 24), color := some "white" }

/-- The style in effect, from the least to the most specific one, over the built-in style. -/
def effective (styles : List (Option Style)) : Style := builtIn.merged styles

/-! ## Font attributes -/

/-- A text in small letters. -/
def lowercase (s : Option String) : String := String.ofList (lowered (s.getD "").toList)

/-- Whether the weight is that of bold letters. -/
def isBold (style : Style) : Bool :=
  ["bold", "700", "800", "900"].contains (lowercase style.fontWeight)

/-- Whether the letters are slanted. -/
def isItalic (style : Style) : Bool := lowercase style.fontStyle == "italic"

/-- Whether the text is underlined. -/
def isUnderlined (style : Style) : Bool := lowercase style.textDecoration == "underline"

/-! ## Documents -/

/-- Above zero. -/
def isPositive (x : Quantity) : Bool := Quantity.lt (.finite 0) x

/-- Zero or above. -/
def isNonnegative (x : Quantity) : Bool := Quantity.le (.finite 0) x

/-- From zero to one. -/
def isShare (x : Quantity) : Bool := isNonnegative x && x.le (.finite 1)

/-- A style from a document. -/
def decode [Rounding] : Decoder Style := Decoder.object fun document ↦
  let positive (name : String) := Decoder.optField name (Decoder.quantity.such isPositive) document
  let nonnegative (name : String) :=
    Decoder.optField name (Decoder.quantity.such isNonnegative) document
  let free (name : String) := Decoder.optField name Decoder.quantity document
  let text (name : String) := Decoder.optField name Decoder.text document
  Style.mk
    <$> positive "fontSize" <*> text "fontFamily" <*> text "fontFile" <*> text "fontWeight"
    <*> text "fontStyle" <*> text "textDecoration" <*> text "color" <*> text "strokeColor"
    <*> nonnegative "strokeWidth" <*> text "backgroundColor" <*> nonnegative "backgroundPadding"
    <*> text "shadowColor" <*> free "shadowX" <*> free "shadowY"
    <*> Decoder.optField "opacity" (Decoder.quantity.such isShare) document
    <*> positive "scale" <*> free "rotation" <*> free "lineSpacing" <*> text "textAlign"

/-- A style as a document. -/
def encode (style : Style) : Json := .obj <|
  ifSome "fontSize" style.fontSize .quantity
    ++ ifSome "fontFamily" style.fontFamily .str
    ++ ifSome "fontFile" style.fontFile .str
    ++ ifSome "fontWeight" style.fontWeight .str
    ++ ifSome "fontStyle" style.fontStyle .str
    ++ ifSome "textDecoration" style.textDecoration .str
    ++ ifSome "color" style.color .str
    ++ ifSome "strokeColor" style.strokeColor .str
    ++ ifSome "strokeWidth" style.strokeWidth .quantity
    ++ ifSome "backgroundColor" style.backgroundColor .str
    ++ ifSome "backgroundPadding" style.backgroundPadding .quantity
    ++ ifSome "shadowColor" style.shadowColor .str
    ++ ifSome "shadowX" style.shadowX .quantity
    ++ ifSome "shadowY" style.shadowY .quantity
    ++ ifSome "opacity" style.opacity .quantity
    ++ ifSome "scale" style.scale .quantity
    ++ ifSome "rotation" style.rotation .quantity
    ++ ifSome "lineSpacing" style.lineSpacing .quantity
    ++ ifSome "textAlign" style.textAlign .str

/-- A style from what a caller may give: nothing or a document. -/
def coerce [Rounding] : Json → Except Error (Option Style)
  | .null => .ok none
  | value => constructing .style Error.isInvalid ((decode value).toExcept.map some)

/-! ## Laying documents over each other -/

/-- What a style has a say in. -/
inductive Field where
  | fontSize
  | fontFamily
  | fontFile
  | fontWeight
  | fontStyle
  | textDecoration
  | color
  | strokeColor
  | strokeWidth
  | backgroundColor
  | backgroundPadding
  | shadowColor
  | shadowX
  | shadowY
  | opacity
  | scale
  | rotation
  | lineSpacing
  | textAlign
  deriving DecidableEq, Repr

namespace Field

/-- All fields, in the order of their declaration. -/
def all : List Field :=
  [fontSize, fontFamily, fontFile, fontWeight, fontStyle, textDecoration, color, strokeColor,
  strokeWidth, backgroundColor, backgroundPadding, shadowColor, shadowX, shadowY, opacity, scale,
  rotation, lineSpacing, textAlign]

/-- The plain name of a field. -/
def key : Field → String
  | fontSize => "font_size"
  | fontFamily => "font_family"
  | fontFile => "font_file"
  | fontWeight => "font_weight"
  | fontStyle => "font_style"
  | textDecoration => "text_decoration"
  | color => "color"
  | strokeColor => "stroke_color"
  | strokeWidth => "stroke_width"
  | backgroundColor => "background_color"
  | backgroundPadding => "background_padding"
  | shadowColor => "shadow_color"
  | shadowX => "shadow_x"
  | shadowY => "shadow_y"
  | opacity => "opacity"
  | scale => "scale"
  | rotation => "rotation"
  | lineSpacing => "line_spacing"
  | textAlign => "text_align"

end Field

/-- What a style says for a field. -/
def said (style : Style) : Field → Option Json
  | .fontSize => style.fontSize.map .quantity
  | .fontFamily => style.fontFamily.map .str
  | .fontFile => style.fontFile.map .str
  | .fontWeight => style.fontWeight.map .str
  | .fontStyle => style.fontStyle.map .str
  | .textDecoration => style.textDecoration.map .str
  | .color => style.color.map .str
  | .strokeColor => style.strokeColor.map .str
  | .strokeWidth => style.strokeWidth.map .quantity
  | .backgroundColor => style.backgroundColor.map .str
  | .backgroundPadding => style.backgroundPadding.map .quantity
  | .shadowColor => style.shadowColor.map .str
  | .shadowX => style.shadowX.map .quantity
  | .shadowY => style.shadowY.map .quantity
  | .opacity => style.opacity.map .quantity
  | .scale => style.scale.map .quantity
  | .rotation => style.rotation.map .quantity
  | .lineSpacing => style.lineSpacing.map .quantity
  | .textAlign => style.textAlign.map .str

/-- The fields of a style that are not open, by their plain names. -/
def members (style : Style) : List (String × Json) :=
  Field.all.flatMap fun field ↦ ifSome field.key (style.said field) id

/-- Members with the fields that an override says written over them. -/
def overwrite (members : List (String × Json)) (override : Option Style) : List (String × Json) :=
  (override.getD {}).members.foldl (fun members member ↦ Json.put member.1 member.2 members) members

/-- A style with others laid over it by way of documents: what they say is written over what is
there, and what results is read as a style, with all the rules that a document has to obey.  Valid
styles are laid over each other field by field in this way (`Style.merged`). -/
def remade [Rounding] (base : Style) (overrides : List (Option Style)) : Except Error Style :=
  (decode (.obj (overrides.foldl overwrite base.members))).toExcept

/-! ## Named styles -/

/-- A caption style by the name of its platform. -/
def captionPreset? : String → Option Style
  | "instagram" => some {
      fontSize := some (.finite 36), fontFamily := some "Arial", color := some "#ffffff",
      strokeColor := some "#000000", strokeWidth := some (.finite 2),
      shadowColor := some "rgba(0,0,0,0.5)", shadowX := some (.finite 2),
      shadowY := some (.finite 2) }
  | "tiktok" => some {
      fontSize := some (.finite 48), fontFamily := some "Arial Black", color := some "#ffffff",
      strokeColor := some "#000000", strokeWidth := some (.finite 3),
      shadowColor := some "rgba(0,0,0,0.7)", shadowX := some (.finite 3),
      shadowY := some (.finite 3) }
  | "youtube" => some {
      fontSize := some (.finite 32), fontFamily := some "Arial", color := some "#ffffff",
      strokeColor := some "#000000", strokeWidth := some (.finite 2),
      backgroundColor := some "rgba(0,0,0,0.8)", backgroundPadding := some (.finite 8) }
  | "pinterest" => some {
      fontSize := some (.finite 28), fontFamily := some "Georgia", color := some "#2d2d2d",
      backgroundColor := some "rgba(255,255,255,0.9)", backgroundPadding := some (.finite 12) }
  | "linkedin" => some {
      fontSize := some (.finite 24), fontFamily := some "Arial", color := some "#0077b5",
      backgroundColor := some "rgba(255,255,255,0.95)", backgroundPadding := some (.finite 10) }
  | _ => none

/-- The styles of words at rest and of the word that is spoken, and whether it glows. -/
structure WordPreset where
  rest : Style
  active : Style
  glows : Bool

/-- Words at rest where nothing is said. -/
def wordRest : Style := {
  fontSize := some (.finite 32), color := some "#cccccc", strokeColor := some "#000000",
  strokeWidth := some (.finite 1) }

/-- The word that is spoken where nothing is said. -/
def wordActive : Style := { color := some "#ff0066", strokeWidth := some (.finite 2) }

/-- A pair of word styles by its name. -/
def wordPreset? : String → Option WordPreset
  | "tiktok" => some {
      rest := {
        fontSize := some (.finite 48), color := some "#ffffff", strokeColor := some "#000000",
        strokeWidth := some (.finite 3) },
      active := {
        color := some "#ff0066", scale := some (binary64 (13 / 10)),
        strokeWidth := some (.finite 4) },
      glows := true }
  | "instagram" => some {
      rest := {
        fontSize := some (.finite 36), color := some "#ffffff", strokeColor := some "#000000",
        strokeWidth := some (.finite 2) },
      active := {
        color := some "#ff4400", scale := some (binary64 (12 / 10)),
        backgroundColor := some "rgba(255,68,0,0.3)", backgroundPadding := some (.finite 8) },
      glows := false }
  | "youtube" => some {
      rest := {
        fontSize := some (.finite 32), color := some "#ffffff",
        backgroundColor := some "rgba(0,0,0,0.8)", backgroundPadding := some (.finite 6) },
      active := {
        color := some "#ff0000", backgroundColor := some "rgba(255,0,0,0.9)",
        backgroundPadding := some (.finite 8) },
      glows := false }
  | "karaoke" => some {
      rest := {
        fontSize := some (.finite 40), color := some "#cccccc", strokeColor := some "#000000",
        strokeWidth := some (.finite 2) },
      active := {
        color := some "#ffff00", strokeColor := some "#ff0000", strokeWidth := some (.finite 3) },
      glows := true }
  | "typewriter" => some {
      rest := {
        fontSize := some (.finite 24), color := some "#333333",
        backgroundColor := some "rgba(255,255,255,0.9)", backgroundPadding := some (.finite 10) },
      active := {
        color := some "#0066cc", scale := some (binary64 (11 / 10)) },
      glows := false }
  | _ => none

end Style
end Montage
