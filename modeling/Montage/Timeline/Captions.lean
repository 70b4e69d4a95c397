import Montage.Layer.Document
import Montage.ReadingTime
import Montage.Style.Basic
import Montage.Timeline.Basic

/-!
# Captions in a row

A batch of captions becomes one caption layer each.  A caption that says no start begins where
the cursor stands, and the cursor moves on with every caption: to its start plus its length, less
the share of the length by which captions overlap.  A caption that says no length lasts to the
end it says, or else as long as its text takes to read.
-/

set_option autoImplicit false

namespace Montage
namespace Timeline

variable [Rounding]

/-- One caption of a batch.  What it leaves open is null; its parts are settled only when the
layer is made, so that the faults of earlier captions come first. -/
structure CaptionItem where
  text : Json
  start : Json
  duration : Json
  stop : Json
  position : Except Error (Option Position)
  style : Except Error (Option Style)
  animation : Except Error (Option Animation)

/-- What all captions of a batch have in common. -/
structure CaptionBatch where
  style : Option Style
  startDelay : Json
  overlap : Json
  wordsPerMinute : Json

/-- How long a caption stays: as it says, or to the end it says, or for its reading time. -/
def CaptionItem.length (item : CaptionItem) (batch : CaptionBatch) (start : Json) :
    Except Error Json := do
  match item.duration, item.stop with
  | .null, .null =>
    let pace : ReadingPace := { wordsPerMinute := batch.wordsPerMinute }
    pace.time item.text
  | .null, stop => stop.sub start
  | duration, _ => return duration

/-- Where the cursor stands after a caption.  A start and a duration that are texts were good for
the layer, and the cursor is then a text as well. -/
def cursorAfter (batch : CaptionBatch) (start duration : Json) : Except Error Json := do
  let kept ← (Number.whole 1).sub (← batch.overlap.number)
  start.add (← duration.times kept)

/-- The layers of captions in a row, from a place of the cursor on. -/
def captionLayers (batch : CaptionBatch) (place : Nat) (cursor : Json) :
    List (Except Error CaptionItem) → Except Error (List Layer)
  | [] => .ok []
  | item :: rest => do
    let item ← item
    match item.text with
    | .null => throw (.construction (.captionWithoutText place))
    | text =>
      let start := match item.start with
        | .null => cursor
        | start => start
      let duration ← item.length batch start
      let own ← item.style
      let style := match batch.style with
        | some base => some (base.merged [own])
        | none => own
      let animation ← item.animation
      let layer ← Layer.make .caption
        [("text", text), ("start_time", start), ("duration", duration)] item.position (.ok style)
        animation
      let next ← cursorAfter batch start duration
      return layer :: (← captionLayers batch (place + 1) next rest)

omit [Rounding] in
/-- The first of two members that is written, even as null. -/
def eitherMember (members : List (String × Json)) (first second : String) : Json :=
  ((Json.lookup? first members).or (Json.lookup? second members)).getD .null

/-- A caption from what a caller may give: a text, or an object with its fields. -/
def captionItem (position transition transitionDuration : Json) : Json → Except Error CaptionItem
  | .str text => .ok {
      text := .str text, start := .null, duration := .null, stop := .null
      position := Layer.givenPosition position
      style := .ok none
      animation := Layer.givenAnimation transition transitionDuration }
  | .obj members => .ok {
      text := (Json.lookup? "text" members).getD .null
      start := eitherMember members "start_time" "startTime"
      duration := (Json.lookup? "duration" members).getD .null
      stop := eitherMember members "end_time" "endTime"
      position := Layer.givenPosition ((Json.lookup? "position" members).getD position)
      style := Style.coerce ((Json.lookup? "style" members).getD .null)
      animation :=
        Layer.givenAnimation ((Json.lookup? "transition" members).getD transition)
          transitionDuration }
  | _ => .error .missingField

/-- Where the cursor stands first, where nothing is said. -/
def zeroDelay : Json := .quantity (.finite 0)

/-- The share of its length by which a caption overlaps the next one, where nothing is said. -/
def usualOverlap : Json := .quantity (binary64 (1 / 10))

/-- The reading speed in words per minute, where nothing is said. -/
def usualSpeed : Json := .whole 200

omit [Rounding] in
/-- What a request for captions may hold. -/
def captionsSignature : Signature := [
  .given "captions", .absent "style", .absent "preset", .default "transition" (.str "fade"),
  .default "transition_duration" Animation.defaultDuration, .default "start_delay" zeroDelay,
  .default "overlap" usualOverlap, .default "words_per_minute" usualSpeed,
  .default "position" (.str "bottom")]

/-- The style under the captions of a batch: that of the preset, under the one that is given. -/
def batchStyle (preset style : Json) : Except Error (Option Style) := do
  match ← preset.asKey with
  | .null => Style.coerce style
  | name =>
    let chosen := match name with
      | .str s => Style.captionPreset? s
      | _ => none
    match chosen with
    | none => throw (.construction (.captionPreset name.shown))
    | some base => return some (base.merged [← Style.coerce style])

/-- Adds captions in a row. -/
def addCaptions (timeline : Timeline) (given : List (String × Json)) : Except Error Timeline := do
  let request ← Request.complete captionsSignature given
  let style ← batchStyle (request.get "preset") (request.get "style")
  let batch : CaptionBatch := {
    style, startDelay := request.get "start_delay", overlap := request.get "overlap"
    wordsPerMinute := request.get "words_per_minute" }
  let items ← (request.get "captions").elements
  let layers ← captionLayers batch 0 batch.startDelay <| items.map <|
    captionItem (request.get "position") (request.get "transition")
      (request.get "transition_duration")
  return timeline.append layers

end Timeline
end Montage
