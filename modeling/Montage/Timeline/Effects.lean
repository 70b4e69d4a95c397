import Montage.Timeline.Builder

/-!
# Effects on timelines

An effect is a step from one timeline to the next.  Most effects put a filter behind the layers;
those that fade out look at the length of the timeline they are applied to.  Effects are chained
from left to right.
-/

set_option autoImplicit false

namespace Montage
namespace Timeline

/-- A step from a timeline to the next. -/
abbrev Step := Timeline → Except Error Timeline

namespace Step

variable [Rounding]

omit [Rounding] in
/-- Steps one after the other. -/
def chain (steps : List Step) : Step := fun timeline ↦
  steps.foldlM (fun timeline step ↦ step timeline) timeline

/-- Puts a filter behind the layers; parameters without a value are left out. -/
def filter (name : String) (params : List (String × Json)) : Step := fun timeline ↦
  let written := params.filter fun param ↦ match param.2 with
    | .null => false
    | _ => true
  timeline.addFilter [("name", .str name), ("params", .obj written)]

/-- Puts a filter behind the layers that begins a number of seconds before the end. -/
def ending (name : String) (duration : Json) (params : Json → List (String × Json)) : Step :=
  fun timeline ↦ do
    let start ← (Number.real timeline.duration).sub (← duration.number)
    timeline.addFilter [("name", .str name),
      ("params", .obj (params (.num (Number.max (.real (.finite 0)) start))))]

/-- A decimal fraction as a value. -/
def decimal (q : Rat) : Json := .quantity (binary64 q)

/-- What an effect by its name may be asked for. -/
def signature? : String → Option Signature
  | "fade_in" | "fade_out" | "audio_fade_in" | "audio_fade_out" =>
    some [.default "duration" (.quantity (.finite 1))]
  | "brightness" | "contrast" | "saturation" | "gamma" => some [.given "value"]
  | "hue" => some [.given "degrees", .absent "saturation"]
  | "blur" => some [.default "radius" (.whole 5)]
  | "gaussian_blur" => some [.default "sigma" (.whole 2)]
  | "motion_blur" => some [.default "frames" (.whole 3)]
  | "grayscale" | "sepia" | "invert" | "stabilize" | "vintage" | "cinematic" | "compose" => some []
  | "vignette" => some [.default "radius" (decimal (8 / 10))]
  | "film_grain" =>
    some [.default "intensity" (decimal (2 / 10)), .default "animated" (.bool true)]
  | "rotate" => some [.given "degrees", .default "fill" (.str "black")]
  | "flip" => some [.default "direction" (.str "horizontal")]
  | "speed" => some [.given "factor"]
  | "chromakey" =>
    some [.default "color" (.str "green"), .default "similarity" (decimal (1 / 10)),
      .default "blend" (decimal 0)]
  | "denoise" => some [.default "strength" (.whole 4)]
  | "scale" => some [.given "width", .given "height"]
  | "crop" =>
    some [.given "width", .given "height", .default "x" (.whole 0), .default "y" (.whole 0)]
  | "volume" => some [.given "level"]
  | _ => none

/-- The tones and grain of old film. -/
def vintage : Step := chain [
  filter "sepia" [], filter "contrast" [("value", decimal (12 / 10))],
  filter "brightness" [("value", decimal (1 / 10))],
  filter "vignette" [("radius", decimal (6 / 10))],
  filter "film_grain" [("intensity", decimal (1 / 10)), ("animated", .bool true)]]

/-- Strong contrast and pale colors. -/
def cinematic : Step := chain [
  filter "contrast" [("value", decimal (13 / 10))],
  filter "saturation" [("value", decimal (8 / 10))],
  filter "brightness" [("value", decimal (-1 / 10))],
  filter "vignette" [("radius", decimal (7 / 10))]]

/-- The step that a complete request asks for. -/
def ofComplete (name : String) (request : Request) : Except Error Step := do
  let duration := request.get "duration"
  match name with
  | "fade_in" =>
    return filter "fade" [("type", .str "in"), ("start", .whole 0), ("duration", duration)]
  | "fade_out" =>
    return ending "fade" duration fun start ↦
      [("type", .str "out"), ("start", start), ("duration", duration)]
  | "audio_fade_in" => return filter "afade" [("t", .str "in"), ("st", .whole 0), ("d", duration)]
  | "audio_fade_out" =>
    return ending "afade" duration fun start ↦ [("t", .str "out"), ("st", start), ("d", duration)]
  | "compose" => return chain []
  | "vintage" => return vintage
  | "cinematic" => return cinematic
  | "flip" =>
    let direction := request.get "direction"
    match direction with
    | .str "horizontal" | .str "vertical" | .str "both" => return filter name request.members
    | other => throw (.refused (.flipDirection other.shown))
  | "speed" =>
    if (← (request.get "factor").number).le 0 then throw (.refused .speedFactor)
    return filter name request.members
  | "scale" => return fun timeline ↦ timeline.scale request.members
  | "crop" => return fun timeline ↦ timeline.crop request.members
  | "volume" => return filter "volume" [("volume", request.get "level")]
  | _ => return filter name request.members

/-- The step that a request for an effect asks for. -/
def ofRequest (name : String) (given : List (String × Json)) : Except Error Step := do
  match signature? name with
  | none => throw .missingField
  | some signature => ofComplete name (← Request.complete signature given)

end Step

/-- Applies the effects of requests, all of which are looked at before the first is applied. -/
def applyEffects [Rounding] (timeline : Timeline)
    (requests : List (String × List (String × Json))) : Except Error Timeline := do
  let steps ← requests.mapM fun request ↦ Step.ofRequest request.1 request.2
  Step.chain steps timeline

end Timeline
end Montage
