import Montage.Animation.Motion
import Montage.Command.Window
import Montage.Effect.Filters
import Montage.Position.Axis
import Montage.Style.Color

/-!
# Pictures

The picture of a video or image layer is prepared by a chain of filters of its own, which cuts,
fits, shifts, turns and fades it, and is then laid over the canvas.
-/

set_option autoImplicit false

namespace Montage
namespace Command

/-- The filter that cuts a stream, if it is to be cut. -/
def cutFilter (name : String) (source : Source) : List Filter :=
  if source.trimStart.isNone && source.trimEnd.isNone then []
  else [.named name (optional "start" (source.trimStart.map .quantity)
    ++ optional "end" (source.trimEnd.map .quantity))]

/-- A scaling to a size. -/
def scaleTo (width height : Int) : Filter :=
  .withArgs "scale" [.num (.whole width), .num (.whole height)]

/-- A scaling to a size that keeps the shape of the picture. -/
def scaleKeeping (width height : Int) (side : String) : Filter :=
  let size := scaleTo width height
  { size with
    options := size.options ++ [(some "force_original_aspect_ratio", .plain side)] }

/-- The filters that fit a picture into a box. -/
def fitFilters (fit : Fit) (width height : Int) : List Filter :=
  match fit with
  | .contain => [scaleKeeping width height "decrease"]
  | .cover => [scaleKeeping width height "increase",
      .withArgs "crop" [.num (.whole width), .num (.whole height)]]
  | .stretch => [scaleTo width height]
  | .natural => []

variable [Rounding]

/-- The even whole number nearest to a number, at least two. -/
def evenSize (size : Number) : Except Error Int := do
  let half ← size.div 2
  return max 2 ((← half.roundWhole) * 2)

/-- The box of a video: a share of the canvas, a size of its own, or the canvas; nothing if only
one side is given. -/
def videoBox (canvas : Canvas) (video : Video) : Except Error (Option (Int × Int)) := do
  match video.scale, video.width, video.height with
  | some scale, _, _ =>
    let width ← evenSize (← (Number.whole canvas.width).mul (.real scale))
    let height ← evenSize (← (Number.whole canvas.height).mul (.real scale))
    return some (width, height)
  | none, some width, some height => return some (width, height)
  | none, none, none => return some (canvas.width, canvas.height)
  | none, _, _ => return none

/-- The filters that bring a video to its box and draw its border. -/
def videoFilters (canvas : Canvas) (video : Video) : Except Error (List Filter) := do
  let sizing := match ← videoBox canvas video with
    | none => [scaleTo (video.width.getD (-2)) (video.height.getD (-2))]
    | some (width, height) =>
      let fitted := fitFilters video.fit width height
      if fitted.isEmpty && video.isSized then [scaleTo width height] else fitted
  if video.borderWidth = 0 then return sizing
  let color ← Color.filterText video.borderColor none
  return sizing ++ [.named "drawbox" [("x", .num 0), ("y", .num 0), ("w", .expr (.var "iw")),
    ("h", .expr (.var "ih")), ("color", .plain color), ("t", .num (.whole video.borderWidth))]]

/-- The part of an extent that lies outside the zoom, times the focus. -/
def zoomOffset (extent : String) (focus : Quantity) : Except Error Expr := do
  let shown ← (Expr.var extent).div (.var "zoom")
  let outside ← (Expr.var extent).sub shown
  outside.mul (.quantity focus)

/-- The filter of a slow zoom over the frames for which the picture is visible. -/
def zoomFilter (canvas : Canvas) (image : Image) (zoom : PanZoom) (visible : Quantity) :
    Except Error Filter := do
  let frames := max 1 (← (Number.real (visible.mul canvas.fps)).roundWhole)
  let growth ← (Expr.quantity (zoom.endZoom.sub zoom.startZoom)).mul (.var "on")
  let factor ← (Expr.quantity zoom.startZoom).add (← growth.div (.num (.whole frames)))
  let x ← zoomOffset "iw" zoom.focusX
  let y ← zoomOffset "ih" zoom.focusY
  let size := toString (image.width.getD canvas.width) ++ "x"
    ++ toString (image.height.getD canvas.height)
  return .named "zoompan" [("z", .expr factor), ("x", .expr x), ("y", .expr y), ("d", .num 1),
    ("s", .plain size), ("fps", .quantity canvas.fps)]

/-- The filters that bring an image to its size and zoom into it. -/
def imageFilters (canvas : Canvas) (image : Image) (visible : Quantity) :
    Except Error (List Filter) := do
  let sizing := if image.width.isNone && image.height.isNone then []
    else [scaleTo (image.width.getD (-1)) (image.height.getD (-1))]
  match image.panZoom with
  | none => return sizing
  | some zoom => return sizing ++ [← zoomFilter canvas image zoom visible]

/-- A picture that is laid over the canvas. -/
inductive Picture where
  | video (video : Video)
  | image (image : Image)

namespace Picture

omit [Rounding] in
/-- The picture of a layer, if it has one. -/
def ofContent : Content → Option Picture
  | .video v => some (video v)
  | .image i => some (image i)
  | _ => none

omit [Rounding] in
/-- The file of a picture. -/
def source : Picture → Source
  | video v => v.source
  | image i => i.source

omit [Rounding] in
/-- How a picture comes and goes. -/
def transition : Picture → Option Animation
  | video v => v.transition
  | image i => i.transition

omit [Rounding] in
/-- Where a picture stands that has no position: a video in the middle, an image at the upper
left. -/
def defaultPosition : Picture → Position
  | video _ => middle
  | image _ => {}

/-- The filters that bring a picture to its size. -/
def sizing (canvas : Canvas) (visible : Quantity) : Picture → Except Error (List Filter)
  | video v => videoFilters canvas v
  | image i => imageFilters canvas i visible

end Picture

/-- The ratio of a radian to a degree. -/
def radian : Quantity := Effect.pi.div (.finite 180)

/-- The filters that turn a picture, round its corners' background left transparent. -/
def turnFilters (style : Style) : List Filter :=
  match style.rotation with
  | none => []
  | some degrees =>
    if degrees.eq (.finite 0) then []
    else
      let radians := (degrees.mul radian).roundPlaces 6
      [⟨"rotate", [(none, .quantity radians), (some "c", .plain "none")]⟩]

/-- The filters that make a picture transparent and fade it. -/
def alphaFilters (style : Style) (fades : List Filter) : List Filter :=
  let opacity := style.opacity.filter fun opacity ↦ opacity.lt (.finite 1)
  let format := if fades.isEmpty && opacity.isNone then [] else [.withArgs "format" [.plain "rgba"]]
  let mixed := match opacity with
    | some opacity => [.named "colorchannelmixer" [("aa", .quantity opacity)]]
    | none => []
  format ++ mixed ++ fades

/-- The filters that prepare the picture of a layer. -/
def preparation (canvas : Canvas) (layer : Layer) (picture : Picture) :
    Except Error (List Filter) := do
  let start := layer.startTime
  let stop := effectiveEnd canvas layer
  let style := layer.style.getD {}
  let sizing ← picture.sizing canvas (stop.sub start)
  let delay ← (Expr.quantity start).div (.var "TB")
  let shift ← (← (Expr.var "PTS").sub (.var "STARTPTS")).add delay
  let fades ← match picture.transition with
    | none => pure []
    | some animation => animation.fadeFilters (.real start) (some (.real stop))
  return cutFilter "trim" picture.source ++ sizing ++ [.withArgs "setpts" [.expr shift]]
    ++ turnFilters style ++ alphaFilters style fades

/-- The filter that lays a prepared picture over the canvas. -/
def overlayFilter (canvas : Canvas) (layer : Layer) (picture : Picture) : Except Error Filter := do
  let (x, y) ← (layer.position.getD picture.defaultPosition).resolve .overlay
  let enable ← enableOf canvas layer
  return .named "overlay" <|
    [("x", .expr x), ("y", .expr y), ("eof_action", .plain "pass")]
      ++ optional "enable" (enable.map .expr)

end Command
end Montage
