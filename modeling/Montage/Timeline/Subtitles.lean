import Montage.Subtitle.Srt
import Montage.Timeline.Captions

/-!
# Subtitles on a timeline

Subtitles become caption layers, each in its own window; what a subtitle says of its place and
style counts, and the caller's place and style count where it says nothing.  In the other
direction the text and caption layers of a timeline become subtitles, an open layer lasting as
long as the timeline.
-/

set_option autoImplicit false

namespace Montage
namespace Timeline

variable [Rounding]

/-- How subtitles are put on a timeline. -/
structure Burning where
  style : Json := .null
  position : Json := .str "bottom"
  transition : Json := .null

/-- The caption of a subtitle. -/
def Burning.item (burning : Burning) (subtitle : Subtitle) : CaptionItem where
  text := .str subtitle.text
  start := .quantity subtitle.start
  duration := .null
  stop := .quantity subtitle.stop
  position := match subtitle.position with
    | some position => .ok (some position)
    | none => Layer.givenPosition burning.position
  style := .ok subtitle.style
  animation := Layer.givenAnimation burning.transition Animation.defaultDuration

/-- Adds subtitles as caption layers. -/
def burn (timeline : Timeline) (subtitles : List Subtitle) (burning : Burning) :
    Except Error Timeline := do
  let batch : CaptionBatch := {
    style := ← batchStyle .null burning.style, startDelay := zeroDelay
    overlap := usualOverlap, wordsPerMinute := usualSpeed }
  let items := (Subtitle.sorted subtitles).map fun s ↦ Except.ok (burning.item s)
  return timeline.append (← captionLayers batch 0 zeroDelay items)

/-- The subtitle of a layer, if it is text; an open layer lasts to a given time. -/
def subtitleOf (total : Quantity) (layer : Layer) : Option Subtitle :=
  layer.content.text?.map fun text ↦
    { text, start := layer.startTime, stop := layer.endTime.getD total, style := layer.style }

/-- The subtitles of the text and caption layers. -/
def subtitles (timeline : Timeline) : List Subtitle :=
  timeline.layers.filterMap (subtitleOf timeline.duration)

/-- The text and caption layers as an SRT document. -/
def toSrt (timeline : Timeline) (options : WriteOptions) : Except Error String :=
  Srt.write options timeline.subtitles

end Timeline
end Montage
