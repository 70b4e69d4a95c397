import Montage.Animation.Motion
import Montage.Command.Window
import Montage.Position.Axis
import Montage.Style.Color

/-!
# Drawn text

A text or caption layer is one filter that draws on the canvas.  Its style is completed from the
default style of the timeline and the style of its track; its animation replaces the options that
it moves.
-/

set_option autoImplicit false

namespace Montage
namespace Command

/-- What is drawn for a text or caption layer. -/
structure Drawing where
  text : String
  trackStyle : Option Style
  animation : Option Animation

/-- What is drawn for a layer, if it is text. -/
def drawingOf : Content → Option Drawing
  | .text text transition => some ⟨text, none, transition⟩
  | .caption caption => some ⟨caption.text, caption.trackStyle, caption.animation⟩
  | _ => none

/-- The name of a font together with its bold and slanted variants. -/
def fontPattern (family : String) (style : Style) : String :=
  let variants := (if style.isBold then ["Bold"] else [])
    ++ (if style.isItalic then ["Italic"] else [])
  if variants.isEmpty then family else family ++ ":style=" ++ " ".intercalate variants

/-- The font: a file if there is one, else a family. -/
def fontOptions (style : Style) : List (String × OptionValue) :=
  match filled style.fontFile, filled style.fontFamily with
  | some file, _ => [("fontfile", .plain file)]
  | none, some family => [("font", .plain (fontPattern family style))]
  | none, none => []

variable [Rounding]

/-- The border of the letters: that of the animation, or else the stroke of the style. -/
def strokeOptions (style : Style) (moved : List (String × OptionValue)) :
    Except Error (List (String × OptionValue)) := do
  match Json.lookup? "borderw" moved, style.strokeWidth with
  | some width, _ =>
    return [("borderw", width),
      ("bordercolor", (Json.lookup? "bordercolor" moved).getD (.plain ""))]
  | none, some width =>
    if width.eq (.finite 0) then return []
    let color ← Color.filterText ((filled style.strokeColor).getD "black") none
    return [("borderw", .quantity width), ("bordercolor", .plain color)]
  | none, none => return []

/-- The box behind the text. -/
def boxOptions (style : Style) : Except Error (List (String × OptionValue)) := do
  match filled style.backgroundColor with
  | none => return []
  | some background =>
    let color ← Color.filterText background none
    let padding := style.backgroundPadding.getD (.finite 0)
    return [("box", .num 1), ("boxcolor", .plain color), ("boxborderw", .quantity padding)]

/-- The shadow of the letters. -/
def shadowOptions (style : Style) : Except Error (List (String × OptionValue)) := do
  let wanted := (filled style.shadowColor).isSome || isSet style.shadowX || isSet style.shadowY
  if !wanted then return []
  let color ← Color.filterText ((filled style.shadowColor).getD "black@0.5") none
  return [("shadowcolor", .plain color),
    ("shadowx", .quantity (style.shadowX.getD (.finite 2))),
    ("shadowy", .quantity (style.shadowY.getD (.finite 2)))]

/-- The extra space between lines. -/
def lineOptions (style : Style) (fontSize : Number) :
    Except Error (List (String × OptionValue)) := do
  match style.lineSpacing with
  | none => return []
  | some spacing =>
    if spacing.eq (.finite 0) || spacing.eq (.finite 1) then return []
    let extra ← fontSize.mul (← (Number.real spacing).sub 1)
    return [("line_spacing", .num (.whole (← extra.roundWhole)))]

/-- The style of drawn text in effect. -/
def effectiveStyle (defaultStyle : Option Style) (drawing : Drawing) (layer : Layer) : Style :=
  Style.effective [defaultStyle, drawing.trackStyle, layer.style]

/-- The options of drawn text that an animation replaces, for a text that rests at `x` and `y`. -/
def movedOptions (canvas : Canvas) (layer : Layer) (drawing : Drawing) (x y fontSize : Expr) :
    Except Error (List (String × OptionValue)) :=
  match drawing.animation with
  | none => .ok []
  | some animation =>
    animation.textOptions (.real layer.startTime) (some (.quantity (effectiveEnd canvas layer)))
      x y fontSize

/-- The filter that draws the text of a layer. -/
def textFilter (canvas : Canvas) (defaultStyle : Option Style) (layer : Layer) (drawing : Drawing) :
    Except Error Filter := do
  let style := effectiveStyle defaultStyle drawing layer
  let size := Number.real (style.fontSize.getD (.finite 24))
  let fontSize ← size.mul (.real (style.scale.getD (.finite 1)))
  let (x, y) ← (layer.position.getD middle).resolve .text
  let moved ← movedOptions canvas layer drawing x y (.num fontSize)
  let moving (key : String) (rest : OptionValue) : OptionValue := (Json.lookup? key moved).getD rest
  let color ← Color.filterText (style.color.getD "white") (style.opacity.map .real)
  let stroke ← strokeOptions style moved
  let box ← boxOptions style
  let shadow ← shadowOptions style
  let lines ← lineOptions style fontSize
  let enable ← enableOf canvas layer
  return .named "drawtext" <|
    [("text", .display drawing.text)] ++ fontOptions style
      ++ [("fontsize", moving "fontsize" (.expr (.num fontSize))), ("fontcolor", .plain color)]
      ++ stroke ++ box ++ shadow ++ lines
      ++ [("x", moving "x" (.expr x)), ("y", moving "y" (.expr y))]
      ++ optional "alpha" (Json.lookup? "alpha" moved) ++ optional "enable" (enable.map .expr)

end Command
end Montage
