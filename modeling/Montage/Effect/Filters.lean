import Montage.Document.Request
import Montage.Filter.Graph
import Montage.Layer.Document

/-!
# The filters of an effect

An effect is known by a name of its own, such as `brightness` or `flip`, and stands for one or
two filters; any other name is that of a filter, which gets the parameters as they are.

Parameters are plain document values.  An effect computes with those that it has to convert, an
angle in degrees or a share in percent, and passes the others on.
-/

set_option autoImplicit false

namespace Montage
namespace Effect

/-- The filters that work on sound. -/
def audioNames : List String :=
  ["volume", "afade", "atempo", "aecho", "lowpass", "highpass", "equalizer", "loudnorm"]

/-- The filters that cannot be switched on and off over time. -/
def untimedNames : List String := ["setpts", "reverse", "zoompan", "fade", "scale", "crop", "speed"]

/-- Whether the effect works on sound. -/
def isAudio (effect : Effect) : Bool := audioNames.contains effect.name

/-- Whether a filter can be switched on and off over time. -/
def isTimed (name : String) : Bool := !untimedNames.contains name

/-- The number pi as a quantity. -/
def pi : Quantity := .finite (mkRat 884279719003555 281474976710656)

/-- Named options, without those whose value is null. -/
def present (options : List (String × Json)) : List (String × OptionValue) :=
  (options.filter fun option ↦ match option.2 with
    | .null => false
    | _ => true).map fun option ↦ (option.1, OptionValue.ofJson option.2)

/-- The weights of a filter that mixes channels. -/
def mixer (weights : List (String × Rat)) : Filter :=
  .named "colorchannelmixer" (weights.map fun weight ↦ (weight.1, .quantity (binary64 weight.2)))

/-- Equal weights for all channels, as bright as they appear. -/
def grayscale : Filter := mixer [
  ("rr", 299 / 1000), ("rg", 587 / 1000), ("rb", 114 / 1000),
  ("gr", 299 / 1000), ("gg", 587 / 1000), ("gb", 114 / 1000),
  ("br", 299 / 1000), ("bg", 587 / 1000), ("bb", 114 / 1000)]

/-- The brown tones of old photographs. -/
def sepia : Filter := mixer [
  ("rr", 393 / 1000), ("rg", 769 / 1000), ("rb", 189 / 1000),
  ("gr", 349 / 1000), ("gg", 686 / 1000), ("gb", 168 / 1000),
  ("br", 272 / 1000), ("bg", 534 / 1000), ("bb", 131 / 1000)]

variable [Rounding]

/-- A multiple of pi, divided and rounded to places. -/
def angle (factor : Json) (divisor : Number) (places : Nat) : Except Error Number := do
  let turned ← (← factor.number).mul (.real pi)
  return (← turned.div divisor).roundPlaces places

omit [Rounding] in
/-- The filters of a flip. -/
def flip (direction : Json) : Except Error (List Filter) := do
  match ← direction.asKey with
  | .str "horizontal" => return [.named "hflip" []]
  | .str "vertical" => return [.named "vflip" []]
  | .str "both" => return [.named "hflip" [], .named "vflip" []]
  | _ => throw .missingKey

/-- The filters of an effect with the given name and parameters. -/
def filtersOf (name : String) (params : List (String × Json)) : Except Error (List Filter) := do
  let param (key : String) (default : Json) : Json := (Json.lookup? key params).getD default
  let whole (n : Int) : Json := .whole n
  let decimal (q : Rat) : Json := .quantity (binary64 q)
  match name with
  | "brightness" => return [.named "eq" (present [(name, param "value" (whole 0))])]
  | "contrast" | "saturation" | "gamma" =>
    return [.named "eq" (present [(name, param "value" (whole 1))])]
  | "hue" =>
    return [.named "hue" (present [("h", param "degrees" (whole 0)),
      ("s", param "saturation" .null)])]
  | "blur" => return [.withArgs "boxblur" [.ofJson (param "radius" (whole 5))]]
  | "gaussian_blur" => return [.named "gblur" (present [("sigma", param "sigma" (whole 2))])]
  | "motion_blur" => return [.named "tmix" (present [("frames", param "frames" (whole 3))])]
  | "grayscale" => return [grayscale]
  | "sepia" => return [sepia]
  | "invert" => return [.named "negate" []]
  | "vignette" =>
    match Json.lookup? "angle" params with
    | some value => return [.named "vignette" (present [("angle", value)])]
    | none =>
      let value ← angle (param "radius" (decimal (8 / 10))) 4 4
      return [.named "vignette" [("angle", .num value)]]
  | "film_grain" =>
    let flags := if (param "animated" (.bool true)).isTruthy then "t+u" else "u"
    let percent ← (← (param "intensity" (decimal (2 / 10))).number).mul 100
    return [.named "noise" [("alls", .num (.whole (← percent.roundWhole))), ("allf", .plain flags)]]
  | "rotate" =>
    let radians ← angle (param "degrees" (whole 0)) 180 6
    let turn := Filter.withArgs "rotate" [.num radians]
    let fill := Filter.named "rotate" (present [("c", param "fill" (.str "black"))])
    return [⟨"rotate", turn.options ++ fill.options⟩]
  | "flip" => flip (param "direction" (.str "horizontal"))
  | "speed" =>
    let factor ← Expr.ofJson (param "factor" (whole 1))
    return [.withArgs "setpts" [.expr (← (Expr.var "PTS").div factor)]]
  | "chromakey" =>
    return [.withArgs "chromakey" [.ofJson (param "color" (.str "green")),
      .ofJson (param "similarity" (decimal (1 / 10))), .ofJson (param "blend" (decimal 0))]]
  | "stabilize" => return [.named "deshake" []]
  | "denoise" => return [.withArgs "hqdn3d" [.ofJson (param "strength" (whole 4))]]
  | "fade" =>
    return [.named "fade" (present [("t", param "type" (.str "in")),
      ("st", param "start" (whole 0)), ("d", param "duration" (whole 1))])]
  | _ =>
    let options := params.map fun (key, value) ↦ (key, (present? value).map OptionValue.ofJson)
    return [← Filter.called name [] options]

/-- The filters of an effect. -/
def filters (effect : Effect) : Except Error (List Filter) :=
  filtersOf effect.name (effect.params.map fun (key, value) ↦ (key, Layer.paramJson value))

end Effect
end Montage
