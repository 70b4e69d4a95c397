import Montage.Command.Inputs
import Montage.Command.Sound
import Montage.Command.Text

/-!
# The graph of a timeline

The canvas is a plain color, and the layers are painted on it in their order: each one reads the
canvas as the layers before it left it and gives it on.  Sounds are prepared apart and mixed at
the end.

What the walk over the layers has to remember, the copies of streams that are left and the
numbers of the next labels, is a `Session`.
-/

set_option autoImplicit false

namespace Montage
namespace Command

/-- What is left of the copies of streams, and how many labels of each letter are taken. -/
structure Session where
  splits : List Split
  prepared : Nat := 0
  painted : Nat := 0
  sounds : Nat := 0

/-- The label of the canvas at the end. -/
def pictureLabel : String := "vout"

/-- The label of the mixed sound. -/
def soundLabel : String := "aout"

variable [Rounding]

/-- The stage that makes the canvas. -/
def canvasStage (canvas : Canvas) (background : String) : Except Error Stage := do
  let color ← Color.filterText background none
  let size := toString canvas.width ++ "x" ++ toString canvas.height
  let filter := Filter.named "color" [("c", .plain color), ("s", .plain size),
    ("r", .quantity canvas.fps), ("d", .quantity canvas.duration)]
  return { inputs := [], filters := [filter], outputs := ["base"] }

/-- Stages that paint one layer, the label of the canvas after it, and what is left. -/
structure Painted where
  stages : List Stage
  output : String
  session : Session

/-- Lays the picture of a layer over the canvas. -/
def paintPicture (canvas : Canvas) (inputs : List Input) (session : Session) (current : String)
    (layer : Layer) (picture : Picture) : Except Error Painted := do
  let prepare ← preparation canvas layer picture
  let prepared := numbered "l" session.prepared
  let (stream, splits) := takeStream ⟨indexOf inputs picture.source.path, false⟩ session.splits
  let overlay ← overlayFilter canvas layer picture
  let output := numbered "v" session.painted
  let preparing : Stage := { inputs := [stream], filters := prepare, outputs := [prepared] }
  let laying : Stage := { inputs := [current, prepared], filters := [overlay], outputs := [output] }
  return {
    stages := [preparing, laying]
    output
    session := { session with
      splits, prepared := session.prepared + 1, painted := session.painted + 1 } }

omit [Rounding] in
/-- One stage that takes the canvas and gives it on. -/
def paintWith (session : Session) (current : String) (filters : List Filter) : Painted :=
  let output := numbered "v" session.painted
  { stages := [{ inputs := [current], filters, outputs := [output] }]
    output
    session := { session with painted := session.painted + 1 } }

/-- The filters of an effect, switched on while its layer is visible. -/
def effectFilters (canvas : Canvas) (layer : Layer) (effect : Effect) :
    Except Error (List Filter) := do
  let filters ← effect.filters
  match ← enableOf canvas layer with
  | none => return filters
  | some enable =>
    return filters.map fun filter ↦
      if Effect.isTimed filter.name then filter.set "enable" (.expr enable) else filter

/-- Paints one layer; layers that are only heard leave the canvas as it is. -/
def paintLayer (canvas : Canvas) (options : RenderOptions) (inputs : List Input)
    (session : Session) (current : String) (layer : Layer) : Except Error (Option Painted) := do
  match Picture.ofContent layer.content with
  | some picture => return some (← paintPicture canvas inputs session current layer picture)
  | none =>
    match drawingOf layer.content, layer.content with
    | some drawing, _ =>
      let filter ← textFilter canvas options.defaultStyle layer drawing
      return some (paintWith session current [filter])
    | none, .filter effect =>
      if effect.isAudio then return none
      return some (paintWith session current (← effectFilters canvas layer effect))
    | none, _ => return none

/-- Paints layers one over the other, from a state of the canvas on. -/
def paintLayers (canvas : Canvas) (options : RenderOptions) (inputs : List Input) :
    Session → String → List Layer → Except Error Painted
  | session, current, [] => .ok ⟨[], current, session⟩
  | session, current, layer :: rest => do
    match ← paintLayer canvas options inputs session current layer with
    | none => paintLayers canvas options inputs session current rest
    | some painted =>
      let later ← paintLayers canvas options inputs painted.session painted.output rest
      return { later with stages := painted.stages ++ later.stages }

omit [Rounding] in
/-- The filters that cut and scale the finished canvas. -/
def outputFilters (options : RenderOptions) : List Filter :=
  let crop := match options.crop with
    | some box => [Filter.withArgs "crop" [.num (.whole box.width), .num (.whole box.height),
        .num (.whole box.x), .num (.whole box.y)]]
    | none => []
  let scale := match options.scale with
    | some size => [scaleTo size.width size.height]
    | none => []
  crop ++ scale

omit [Rounding] in
/-- The stages with another output of the last one. -/
def relabelLast (output : String) : List Stage → List Stage
  | [] => []
  | [stage] => [{ stage with outputs := [output] }]
  | stage :: rest => stage :: relabelLast output rest

omit [Rounding] in
/-- Ends the picture: by a stage that cuts and scales it, or by the name of its last output. -/
def finishPicture (options : RenderOptions) (current : String) (stages : List Stage) : List Stage :=
  let filters := outputFilters options
  if filters.isEmpty then relabelLast pictureLabel stages
  else stages ++ [{ inputs := [current], filters, outputs := [pictureLabel] }]

/-- The stages that prepare the sounds of layers, and their labels. -/
def soundStages (canvas : Canvas) (inputs : List Input) :
    Session → List Layer → Except Error (List Stage × List String)
  | _, [] => .ok ([], [])
  | session, layer :: rest => do
    match Sound.ofContent layer.content with
    | none => soundStages canvas inputs session rest
    | some sound =>
      let label := numbered "a" session.sounds
      let filters ← soundFilters canvas layer sound
      let (stream, splits) := takeStream ⟨indexOf inputs sound.source.path, true⟩ session.splits
      let (stages, labels) ← soundStages canvas inputs
        { session with splits, sounds := session.sounds + 1 } rest
      return ({ inputs := [stream], filters, outputs := [label] } :: stages, label :: labels)

/-- The filters that work on the mixed sound. -/
def soundEffects : List Layer → Except Error (List Filter)
  | [] => .ok []
  | layer :: rest => do
    match layer.content with
    | .filter effect =>
      if effect.isAudio then
        let filters ← effect.filters
        return filters ++ (← soundEffects rest)
      else soundEffects rest
    | _ => soundEffects rest

omit [Rounding] in
/-- The stage that mixes sounds, if there are any. -/
def mixStage (labels : List String) (effects : List Filter) : List Stage :=
  if labels.isEmpty then []
  else
    let mix := if 1 < labels.length then
        Filter.named "amix" [("inputs", .num (.whole labels.length)),
          ("duration", .plain "longest")]
      else .named "anull" []
    [{ inputs := labels, filters := mix :: effects, outputs := [soundLabel] }]

/-- The graph of a timeline and the inputs it reads. -/
structure Compiled where
  inputs : List Input
  graph : FilterGraph
  hasSound : Bool

/-- The canvas of a timeline. -/
def canvasOf (timeline : Timeline) : Except Error Canvas := do
  let (width, height) ← timeline.options.canvasSize
  return { width, height, fps := timeline.options.fps, duration := timeline.duration }

/-- Compiles a timeline into a graph. -/
def compile (timeline : Timeline) : Except Error Compiled := do
  let canvas ← canvasOf timeline
  let inputs := inputsOf timeline.layers
  let splits := splitsOf inputs timeline.layers
  let base ← canvasStage canvas timeline.options.backgroundColor
  let painted ← paintLayers canvas timeline.options inputs { splits } "base" timeline.layers
  let pictures := finishPicture timeline.options painted.output (base :: painted.stages)
  let (sounds, labels) ← soundStages canvas inputs painted.session timeline.layers
  let effects ← soundEffects timeline.layers
  return {
    inputs
    graph := ⟨splits.map Split.stage ++ pictures ++ sounds ++ mixStage labels effects⟩
    hasSound := !labels.isEmpty }

end Command
end Montage
