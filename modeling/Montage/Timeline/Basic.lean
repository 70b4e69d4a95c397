import Montage.Document.Request
import Montage.Layer.Document
import Montage.Report
import Montage.Timeline.Options

/-!
# Timelines

A timeline is a list of layers and the options of the output.  The order of the layers is the
order in which they are painted: later layers cover earlier ones.

The length of a timeline is the option if it is set, and else the latest end of a layer; an open
layer counts with the usual length of its kind, and a filter does not count.  Joining two
timelines moves the layers of the second one behind the first.
-/

set_option autoImplicit false

namespace Montage

/-- Layers in the order in which they are painted, and the options of the output. -/
structure Timeline where
  layers : List Layer := []
  options : RenderOptions := {}
  deriving DecidableEq, Repr

namespace Timeline

variable [Rounding]

/-! ## Length -/

/-- The length of an open still layer, and of an empty timeline, in seconds. -/
def stillDuration : Quantity := .finite 5

/-- The length of an open video or audio layer whose source is not cut, in seconds. -/
def mediaDuration : Quantity := .finite 30

/-- The length for which an open layer counts; nothing for what does not count. -/
def openLength : Content → Option Quantity
  | .filter _ => none
  | .video { source, .. } | .audio { source, .. } =>
    some <| match source.trimEnd with
      | some stop => Quantity.max (.finite 0) (stop.sub (source.trimStart.getD (.finite 0)))
      | none => mediaDuration
  | _ => some stillDuration

/-- The end with which a layer counts for the length of the timeline; a layer with a duration
counts whatever it holds. -/
def countedEnd (layer : Layer) : Option Quantity :=
  match layer.duration with
  | some duration => some (layer.startTime.add duration)
  | none => (openLength layer.content).map layer.startTime.add

omit [Rounding] in
/-- The largest of some quantities, the first one of several equal ones. -/
def latest? : List Quantity → Option Quantity
  | [] => none
  | x :: xs => some (xs.foldl Quantity.max x)

/-- The length of the output in seconds. -/
def duration (timeline : Timeline) : Quantity :=
  match timeline.options.duration with
  | some duration => duration
  | none => (latest? (timeline.layers.filterMap countedEnd)).getD stillDuration

/-! ## Building -/

omit [Rounding] in
/-- The timeline with layers behind its own. -/
def append (timeline : Timeline) (layers : List Layer) : Timeline :=
  { timeline with layers := timeline.layers ++ layers }

/-- The timeline with some options changed by a document. -/
def withOptions (timeline : Timeline) (changes : List (String × Json)) : Except Error Timeline := do
  let options ← constructing .globalOptions Error.isInvalid
    (timeline.options.decodeOver (.obj changes)).toExcept
  return { timeline with options }

/-- The layers of another timeline behind the end of this one, which keeps its options.  A length
that was set grows by the length of the other timeline. -/
def concat (timeline other : Timeline) : Except Error Timeline :=
  let offset := timeline.duration
  let joined := timeline.append (other.layers.map fun layer ↦ layer.shifted offset)
  match timeline.options.duration with
  | none => .ok joined
  | some _ => joined.withOptions [("duration", .quantity (offset.add other.duration))]

/-! ## Documents -/

omit [Rounding] in
/-- A timeline as a document. -/
def encode (timeline : Timeline) : Json := .obj [
  ("layers", .arr (timeline.layers.map Layer.encode)),
  ("globalOptions", timeline.options.encode)]

omit [Rounding] in
/-- A member of a document, or what stands for it if it is missing or empty. -/
def memberOr (document : Json) (key : String) (fallback : Json) : Except Error Json := do
  let value ← document.member? key
  return match value with
    | some value => if value.isTruthy then value else fallback
    | none => fallback

/-- The layers of documents; a document of an unknown kind is passed over with a warning. -/
def decodeLayers : List Json → Reported (List Layer)
  | [] => pure []
  | document :: rest => do
    let _ ← (document.member? "kind" : Except Error (Option Json))
    match Layer.kindOf? document with
    | none =>
      Reported.warn .layerKind
      decodeLayers rest
    | some _ =>
      let layer ← (constructing .timelineDocument Error.isInvalid (Layer.decode document).toExcept :
        Except Error Layer)
      let layers ← decodeLayers rest
      return layer :: layers

/-- The timeline of a document. -/
def ofDocument (document : Json) : Reported Timeline := do
  let layersDocument ← memberOr document "layers" (.arr [])
  let layers ← decodeLayers (← layersDocument.elements)
  let optionsDocument ← memberOr document "globalOptions" (.obj [])
  let options ← (constructing .timelineDocument Error.isInvalid
    (RenderOptions.decode optionsDocument).toExcept : Except Error RenderOptions)
  return { layers, options }

end Timeline
end Montage
