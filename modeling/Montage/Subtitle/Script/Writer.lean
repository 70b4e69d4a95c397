import Montage.Document.Request
import Montage.Position.Axis
import Montage.Subtitle.Basic
import Montage.Subtitle.Script.Override
import Montage.Subtitle.Timecode

/-!
# Writing scripts

A script is written with one style for all its lines and with override tags for what a subtitle
says beyond it: bold, slanted, underlined, sizes, colors, the outline, a place in pixels and a
fade.  Backgrounds, shadows and other animations have no tags and are not written.
-/

set_option autoImplicit false

namespace Montage
namespace Script

/-- What a script says about itself. -/
structure Heading where
  title : String := "mediasdk captions"
  width : Json := .whole 1920
  height : Json := .whole 1080
  style : Option Style := none

/-- The fields of the style of a script. -/
def styleFormat : String :=
  "Name, Fontname, Fontsize, PrimaryColour, SecondaryColour, OutlineColour, BackColour, "
    ++ "Bold, Italic, Underline, StrikeOut, ScaleX, ScaleY, Spacing, Angle, BorderStyle, "
    ++ "Outline, Shadow, Alignment, MarginL, MarginR, MarginV, Encoding"

/-- The fields of a line of dialogue. -/
def eventFormat : String :=
  "Layer, Start, End, Style, Name, MarginL, MarginR, MarginV, Effect, Text"

/-- The style of a script where nothing is said. -/
def baseStyle : Style := {
  fontFamily := some "Arial", fontSize := some (.finite 32), color := some "#ffffff"
  strokeColor := some "#000000", strokeWidth := some (.finite 2) }

/-- A truth value in a style. -/
def flagText (b : Bool) : String := if b then "-1" else "0"

/-- A quantity in a script. -/
def quantityText (x : Quantity) : String := (Number.real x).text

variable [Rounding]

/-! ## The style of the script -/

/-- The line of the style of a script. -/
def styleLine (style : Style) : Except Error String := do
  let primary ← Color.scriptText style.color Color.scriptWhite
  let outline ← Color.scriptText style.strokeColor "&H00000000"
  let back ← Color.scriptText style.backgroundColor "&H80000000"
  return ",".intercalate [
    "Style: Default", style.fontFamily.getD "", quantityText (style.fontSize.getD (.finite 0)),
    primary, "&H000000FF", outline, back, flagText style.isBold, flagText style.isItalic,
    flagText style.isUnderlined, "0", "100", "100", "0", "0", "1",
    quantityText (style.strokeWidth.getD (.finite 0)),
    quantityText (style.shadowX.getD (.finite 0)), "2", "10", "10", "10", "1"]

/-! ## Override tags -/

/-- A color as the value of a tag. -/
def colorValue (color : String) : Except Error String := do
  let text ← Color.scriptText (some color) Color.scriptWhite
  return "&H" ++ String.ofList (text.toList.drop 4) ++ "&"

/-- A tag for a color, if there is one. -/
def colorTag (name : String) (color : Option String) : Except Error (List String) :=
  match color with
  | none => .ok []
  | some color => if color.isEmpty then .ok [] else do return ["\\" ++ name ++ (← colorValue color)]

/-- The tags of a style. -/
def styleTags (style : Style) : Except Error (List String) := do
  let color ← colorTag "c" style.color
  let stroke ← colorTag "3c" style.strokeColor
  return (if style.isBold then ["\\b1"] else []) ++ (if style.isItalic then ["\\i1"] else [])
    ++ (if style.isUnderlined then ["\\u1"] else [])
    ++ (match style.fontSize with
      | some size => if size.eq (.finite 0) then [] else ["\\fs" ++ quantityText size]
      | none => [])
    ++ color ++ stroke
    ++ (match style.strokeWidth with
      | some width => ["\\bord" ++ quantityText width]
      | none => [])

/-- The tags of a position, if it is a point on the canvas of the script. -/
def placeTags (heading : Heading) (position : Position) : Except Error (List String) := do
  match ← position.point heading.width heading.height with
  | none => return []
  | some (x, y) =>
    let key := padKey (position.anchor.getD .topLeft)
    return ["\\an" ++ toString key ++ "\\pos(" ++ (x.roundPlaces 2).text ++ ","
      ++ (y.roundPlaces 2).text ++ ")"]

/-- The tags of an animation, if it is a fade. -/
def fadeTags (animation : Animation) : Except Error (List String) := do
  let written (fadeIn fadeOut : Int) : List String :=
    ["\\fad(" ++ toString fadeIn ++ "," ++ toString fadeOut ++ ")"]
  let millis : Except Error Int := do (← (Number.real animation.duration).mul 1000).roundWhole
  match animation.motion with
  | .fade => let n ← millis; return written n n
  | .fadeIn => return written (← millis) 0
  | .fadeOut => return written 0 (← millis)
  | _ => return []

/-- The tags of something that may be missing. -/
def tagsFor {α : Type} (tags : α → Except Error (List String)) :
    Option α → Except Error (List String)
  | none => .ok []
  | some a => tags a

/-- The block of tags before the text of a subtitle. -/
def overrideBlock (heading : Heading) (subtitle : Subtitle) : Except Error String := do
  let style ← tagsFor styleTags subtitle.style
  let place ← tagsFor (placeTags heading) subtitle.position
  let fade ← tagsFor fadeTags subtitle.animation
  match style ++ place ++ fade with
  | [] => return ""
  | tags => return "\x7b" ++ String.join tags ++ "\x7d"

/-! ## Documents -/

/-- The line of dialogue of a subtitle. -/
def dialogueLine (heading : Heading) (subtitle : Subtitle) : Except Error String := do
  let tags ← overrideBlock heading subtitle
  let start ← TimeNotation.ass.text (.real subtitle.start)
  let stop ← TimeNotation.ass.text (.real subtitle.stop)
  let text := String.ofList (replaceChar '\n' ['\\', 'N'] subtitle.text.toList)
  return "Dialogue: 0," ++ start ++ "," ++ stop ++ ",Default,,0,0,0,," ++ tags ++ text

/-- The lines before the dialogue. -/
def headingLines (heading : Heading) : Except Error (List String) := do
  let style ← styleLine (baseStyle.merged [heading.style])
  return [
    "[Script Info]", "Title: " ++ heading.title, "ScriptType: v4.00+",
    "PlayResX: " ++ heading.width.shown, "PlayResY: " ++ heading.height.shown, "WrapStyle: 0", "",
    "[V4+ Styles]", "Format: " ++ styleFormat, style, "",
    "[Events]", "Format: " ++ eventFormat]

/-- Writes a script. -/
def write (heading : Heading) (lineEnding : LineEnding) (subtitles : List Subtitle) :
    Except Error String := do
  let opening ← headingLines heading
  let dialogue ← (Subtitle.sorted subtitles).mapM (dialogueLine heading)
  return String.join ((opening ++ dialogue).map (· ++ lineEnding.text))

end Script
end Montage
