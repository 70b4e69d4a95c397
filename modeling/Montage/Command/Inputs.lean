import Montage.Filter.Graph
import Montage.Timeline.Basic

/-!
# Inputs and their streams

Every media source of a timeline is one input of the command, however many layers use it; the
inputs stand in the order in which the sources first appear.  A filter graph may read a stream of
an input only once, so a stream that several layers use is split first, and each of them takes
the next of the copies.
-/

set_option autoImplicit false

namespace Montage
namespace Command

/-- A media source of the command, with the flags that stand before it. -/
structure Input where
  path : String
  flags : List String
  deriving DecidableEq, Repr

/-- The source of a layer that has one. -/
def sourceOf : Content → Option Source
  | .video video => some video.source
  | .audio audio => some audio.source
  | .image image => some image.source
  | _ => none

/-- The flags with which the source of a layer is opened: a still picture and a looped sound
repeat. -/
def flagsOf : Content → List String
  | .image _ => ["-loop", "1"]
  | .audio audio => if audio.loop then ["-stream_loop", "-1"] else []
  | _ => []

/-- The input that a layer needs. -/
def inputOf (layer : Layer) : Option Input :=
  (sourceOf layer.content).map fun source ↦ ⟨source.path, flagsOf layer.content⟩

/-- Adds an input unless its source is there already. -/
def register (inputs : List Input) (input : Input) : List Input :=
  if inputs.any fun known ↦ known.path == input.path then inputs else inputs ++ [input]

/-- The inputs of layers, in the order in which their sources first appear. -/
def inputsOf (layers : List Layer) : List Input := (layers.filterMap inputOf).foldl register []

/-- A stream of an input: its picture or its sound. -/
structure Pad where
  input : Nat
  sound : Bool
  deriving DecidableEq, Repr

/-- The name by which the graph knows a stream. -/
def Pad.name (pad : Pad) : String := toString pad.input ++ (if pad.sound then ":a" else ":v")

/-- The place of a source among the inputs. -/
def indexOf (inputs : List Input) (path : String) : Nat :=
  inputs.findIdx fun input ↦ input.path == path

/-- The stream with the picture of a layer. -/
def picturePad (inputs : List Input) : Content → Option Pad
  | .video video => some ⟨indexOf inputs video.source.path, false⟩
  | .image image => some ⟨indexOf inputs image.source.path, false⟩
  | _ => none

/-- The stream with the sound of a layer. -/
def soundPad (inputs : List Input) : Content → Option Pad
  | .video video => if video.audio then some ⟨indexOf inputs video.source.path, true⟩ else none
  | .audio audio => some ⟨indexOf inputs audio.source.path, true⟩
  | _ => none

/-- All uses of streams, layer by layer. -/
def padsOf (inputs : List Input) (layers : List Layer) : List Pad :=
  layers.flatMap fun layer ↦
    (picturePad inputs layer.content).toList ++ (soundPad inputs layer.content).toList

/-- Each value once, in the order of first appearance. -/
def distinct {α : Type} [DecidableEq α] (xs : List α) : List α :=
  xs.foldl (fun seen x ↦ if seen.contains x then seen else seen ++ [x]) []

/-- A label that is numbered among those with the same letter. -/
def numbered (letter : String) (n : Nat) : String := letter ++ toString n

/-- A stream and the labels of its copies. -/
structure Split where
  pad : Pad
  labels : List String
  deriving DecidableEq, Repr

/-- The splits of the streams that are used more than once, where `next` copies have been
labelled before. -/
def splitsFrom (uses : List Pad) : Nat → List Pad → List Split
  | _, [] => []
  | next, pad :: rest =>
    let count := uses.count pad
    if 1 < count then
      ⟨pad, (List.range count).map fun i ↦ numbered "s" (next + i)⟩
        :: splitsFrom uses (next + count) rest
    else splitsFrom uses next rest

/-- The splits that layers need. -/
def splitsOf (inputs : List Input) (layers : List Layer) : List Split :=
  let uses := padsOf inputs layers
  splitsFrom uses 0 (distinct uses)

/-- The stage that copies a stream. -/
def Split.stage (split : Split) : Stage where
  inputs := [split.pad.name]
  filters := [.withArgs (if split.pad.sound then "asplit" else "split")
    [.num (.whole split.labels.length)]]
  outputs := split.labels

/-- The label from which a stream is read next, and the copies that are left.  A stream without
copies is read by its own name. -/
def takeStream (pad : Pad) : List Split → String × List Split
  | [] => (pad.name, [])
  | split :: rest =>
    if split.pad = pad then
      match split.labels with
      | label :: labels => (label, { split with labels } :: rest)
      | [] => (pad.name, split :: rest)
    else
      let (label, left) := takeStream pad rest
      (label, split :: left)

end Command
end Montage
