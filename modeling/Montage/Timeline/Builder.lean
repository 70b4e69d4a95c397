import Montage.Layer.Document
import Montage.Timeline.Basic

/-!
# Building timelines

Each builder reads a request, makes a layer or changes options, and gives a new timeline.  What a
request may hold is in the builder's signature; the rules for the values are those of documents.
-/

set_option autoImplicit false

namespace Montage
namespace Timeline

open Parameter (given default absent)

variable [Rounding]

/-! ## Layers -/

omit [Rounding] in
/-- The members of a request that are fields of a layer. -/
def fieldsOf (request : Request) (parts : List String) : List (String × Json) :=
  request.members.filter fun member ↦ !parts.contains member.1

/-- A layer of a kind with position, style and transition from a request. -/
def layerOf (kind : Layer.Kind) (request : Request) : Except Error Layer := do
  let animation ← Layer.givenAnimation (request.get "transition") Animation.defaultDuration
  Layer.make kind (fieldsOf request ["position", "style", "transition"])
    (Layer.givenPosition (request.get "position")) (Style.coerce (request.get "style")) animation

omit [Rounding] in
/-- Zero seconds, the usual start of a layer. -/
def zeroSeconds : Json := .quantity (.finite 0)

omit [Rounding] in
/-- What a request for a video layer may hold. -/
def videoSignature : Signature := [
  given "source", default "start_time" zeroSeconds, absent "duration", absent "position",
  default "volume" (.quantity (.finite 1)), default "audio" (.bool true), absent "trim_start",
  absent "trim_end", default "fit" (.str "contain"), absent "transition", absent "style",
  absent "width", absent "height", absent "scale", default "border_width" (.whole 0),
  default "border_color" (.str "white")]

/-- Adds a video. -/
def addVideo (timeline : Timeline) (given : List (String × Json)) : Except Error Timeline := do
  let request ← Request.complete videoSignature given
  return timeline.append [← layerOf .video request]

omit [Rounding] in
/-- What a request for an audio layer may hold. -/
def audioSignature : Signature := [
  given "source", default "start_time" zeroSeconds, absent "duration",
  default "volume" (.quantity (.finite 1)), absent "fade_in", absent "fade_out",
  absent "trim_start", absent "trim_end", absent "tempo", absent "lowpass", absent "highpass",
  absent "echo_delay", absent "echo_decay", default "loop" (.bool false)]

/-- Adds a sound. -/
def addAudio (timeline : Timeline) (given : List (String × Json)) : Except Error Timeline := do
  let request ← Request.complete audioSignature given
  return timeline.append [← Layer.make .audio request.members (.ok none) (.ok none) none]

omit [Rounding] in
/-- What a request for an image layer may hold. -/
def imageSignature : Signature := [
  given "source", default "start_time" zeroSeconds, absent "duration", absent "position",
  absent "width", absent "height", absent "pan_zoom", absent "transition", absent "style"]

/-- Adds a picture. -/
def addImage (timeline : Timeline) (given : List (String × Json)) : Except Error Timeline := do
  let request ← Request.complete imageSignature given
  return timeline.append [← layerOf .image request]

omit [Rounding] in
/-- What a request for a watermark may hold. -/
def watermarkSignature : Signature := [
  given "source", default "position" (.str "bottom-right"),
  default "opacity" (.quantity (binary64 (7 / 10))), absent "width", absent "height",
  default "margin" (.num Position.defaultMargin), default "start_time" zeroSeconds,
  absent "duration"]

/-- Adds a picture that shines through, at a named place with a margin. -/
def addWatermark (timeline : Timeline) (given : List (String × Json)) : Except Error Timeline := do
  let request ← Request.complete watermarkSignature given
  let position ← constructing .placement Error.isBadValue
    (Position.preset (request.get "position") (request.get "margin"))
  let style ← (Style.decode (.obj [("opacity", request.get "opacity")])).toExcept
  let layer ← Layer.make .image (fieldsOf request ["position", "opacity", "margin"])
    (.ok (some position)) (.ok (some style)) none
  return timeline.append [layer]

omit [Rounding] in
/-- What a request for a picture in picture may hold. -/
def insetSignature : Signature := [
  given "source", default "position" (.str "bottom-right"),
  default "scale" (.quantity (.finite (1 / 4))), absent "width", absent "height",
  default "margin" (.num Position.defaultMargin), default "opacity" (.quantity (.finite 1)),
  absent "rotation", default "border_width" (.whole 0), default "border_color" (.str "white"),
  absent "transition", default "transition_duration" Animation.defaultDuration,
  default "start_time" zeroSeconds, absent "duration",
  default "volume" (.quantity (binary64 (3 / 10))), default "audio" (.bool true)]

/-- Adds a small video over the others, at a named place with a margin.  A width or height takes
the place of the scale. -/
def addInset (timeline : Timeline) (given : List (String × Json)) : Except Error Timeline := do
  let request ← Request.complete insetSignature given
  let (position, style) ← constructing .placement Error.isBadValue do
    let position ← Position.preset (request.get "position") (request.get "margin")
    let style ← (Style.decode (.obj [("opacity", request.get "opacity"),
      ("rotation", request.get "rotation")])).toExcept
    return (position, style)
  let animation ← Layer.givenAnimation (request.get "transition")
    (request.get "transition_duration")
  let sized := match request.get "width", request.get "height" with
    | .null, .null => false
    | _, _ => true
  let dropped := ["position", "opacity", "rotation", "margin", "transition", "transition_duration"]
  let fields := fieldsOf request (if sized then "scale" :: dropped else dropped)
  let layer ← Layer.make .video fields (.ok (some position)) (.ok (some style)) animation
  return timeline.append [layer]

omit [Rounding] in
/-- What a request for a text layer may hold. -/
def textSignature : Signature := [
  given "text", default "start_time" zeroSeconds, default "duration" (.quantity (.finite 5)),
  default "position" (.str "center"), absent "style", absent "transition"]

/-- Adds a text. -/
def addText (timeline : Timeline) (given : List (String × Json)) : Except Error Timeline := do
  let request ← Request.complete textSignature given
  return timeline.append [← layerOf .text request]

omit [Rounding] in
/-- What a request for a filter layer may hold. -/
def filterSignature : Signature := [
  given "name", absent "params", default "start_time" zeroSeconds, absent "duration"]

omit [Rounding] in
/-- A key and a value that stand side by side. -/
def pairOf (item : Json) : Except Error (Json × Json) := do
  match ← item.elements with
  | [key, value] => return (← key.asKey, value)
  | _ => throw .badValue

omit [Rounding] in
/-- The parameter that a pair is; its key has to be a text. -/
def paramOf (pair : Json × Json) : Except Error (String × Json) :=
  match pair.1 with
  | .str key => .ok (key, pair.2)
  | key =>
    let cause := Error.invalid ["params." ++ key.inspect]
    .error (.constructionFrom (.layer Layer.Kind.filter.title) cause)

omit [Rounding] in
/-- Parameters that a caller gave: an object, nothing, or pairs of keys and values. -/
def givenParams (params : Json) : Except Error Json := do
  if !params.isTruthy then return .obj []
  match params with
  | .obj members => return .obj members
  | value =>
    let pairs ← (← value.elements).mapM pairOf
    return Json.ofMembers (← pairs.mapM paramOf)

/-- Adds a filter that works on all that is painted before it. -/
def addFilter (timeline : Timeline) (given : List (String × Json)) : Except Error Timeline := do
  let request ← Request.complete filterSignature given
  let params ← givenParams (request.get "params")
  let layer ← Layer.make .filter (fieldsOf request ["params"] ++ [("params", params)]) (.ok none)
    (.ok none) none
  return timeline.append [layer]

/-! ## Options -/

/-- Keeps only a part of the output. -/
def trim (timeline : Timeline) (given : List (String × Json)) : Except Error Timeline := do
  let request ← Request.complete [Parameter.given "start", absent "end"] given
  let start := request.get "start"
  let stop := request.get "end"
  match stop with
  | .null => pure ()
  | stop => if ← stop.isAtMost start then throw (.construction (.trimOrder start.shown stop.shown))
  timeline.withOptions [("trim", .obj [("start", start), ("end", stop)])]

/-- Scales the output. -/
def scale (timeline : Timeline) (given : List (String × Json)) : Except Error Timeline := do
  let request ← Request.complete [Parameter.given "width", Parameter.given "height"] given
  timeline.withOptions [("scale", request.document)]

/-- Keeps a rectangle of the output. -/
def crop (timeline : Timeline) (given : List (String × Json)) : Except Error Timeline := do
  let request ← Request.complete [Parameter.given "width", Parameter.given "height",
    default "x" (.whole 0), default "y" (.whole 0)] given
  timeline.withOptions [("crop", request.document)]

/-- Sets the shape of the canvas and drops a size that was set. -/
def setAspectRatio (timeline : Timeline) (given : List (String × Json)) :
    Except Error Timeline := do
  let request ← Request.complete [Parameter.given "ratio"] given
  timeline.withOptions [("aspectRatio", request.get "ratio"), ("width", .null), ("height", .null)]

/-- Sets the size of the canvas. -/
def setResolution (timeline : Timeline) (given : List (String × Json)) : Except Error Timeline := do
  let request ← Request.complete [Parameter.given "width", Parameter.given "height"] given
  timeline.withOptions request.members

/-- Sets one option, which the request calls by a name of its own. -/
def setOption (timeline : Timeline) (option parameter : String) (given : List (String × Json)) :
    Except Error Timeline := do
  let request ← Request.complete [Parameter.given parameter] given
  timeline.withOptions [(option, request.get parameter)]

/-- Sets the style under all others. -/
def setDefaultStyle (timeline : Timeline) (given : List (String × Json)) :
    Except Error Timeline := do
  let request ← Request.complete [Parameter.given "style"] given
  let style ← Style.coerce (request.get "style")
  return { timeline with options := { timeline.options with defaultStyle := style } }

end Timeline
end Montage
