import Montage.Command.Graph
import Montage.Tracks.Basic

/-!
# Tracks on a timeline

The subtitles of the tracks that are shown become caption layers.  Tracks of lower priority come
first, so that those of higher priority are painted over them.  A subtitle stands where it says, or
else where its track says, or else at the bottom.
-/

set_option autoImplicit false

namespace Montage
namespace TrackSet

variable [Rounding]

/-! ## Layers -/

omit [Rounding] in
/-- The languages that a request asks for; null asks for all. -/
def wantedLanguages : Json → Except Error (Option (List Json))
  | .null => .ok none
  | value => do
    let languages ← value.elements
    return some (← languages.mapM Json.asKey)

omit [Rounding] in
/-- Whether a track is shown among the languages that are wanted. -/
def isShown (wanted : Option (List Json)) (track : Track) : Bool :=
  track.isEnabled && match wanted with
    | none => true
    | some languages => languages.any fun language ↦ match language with
      | .str s => s == track.language
      | _ => false

omit [Rounding] in
/-- The tracks that are shown, by falling priority. -/
def shownTracks (set : TrackSet) (wanted : Option (List Json)) : List Track :=
  set.ranked.filter (isShown wanted)

omit [Rounding] in
/-- The text of a subtitle on the canvas: its lines are broken unless it has some already. -/
def layerText (set : TrackSet) (text : String) : String :=
  if set.sync.autoBreak && !text.toList.contains '\n' then set.sync.brokenText text else text

/-- Where a subtitle stands. -/
def placeOf (track : Track) (subtitle : Subtitle) : Except Error Position :=
  match subtitle.position.or track.position with
  | some position => .ok position
  | none => Position.preset (.str "bottom") (.num Position.defaultMargin)

/-- The layer of a subtitle of a track. -/
def layerOf (set : TrackSet) (track : Track) (subtitle : Subtitle) : Except Error Layer := do
  let position ← placeOf track subtitle
  let length := Quantity.max (.finite 0) subtitle.length
  let content : Content := .caption {
    text := set.layerText subtitle.text, animation := subtitle.animation
    trackStyle := track.defaultStyle, language := some track.language }
  let document := .obj [("startTime", .quantity subtitle.start), ("duration", .quantity length)]
  (Layer.assemble document ⟨.ok (some position), .ok subtitle.style, .ok none⟩
    (.ok content)).toExcept

/-- The layers of the tracks that are shown. -/
def layers (set : TrackSet) (languages : Json) : Except Error (List Layer) := do
  let tracks := set.shownTracks (← wantedLanguages languages)
  let perTrack ← tracks.reverse.mapM fun track ↦ track.entries.mapM (set.layerOf track)
  return perTrack.flatten

/-! ## Timelines -/

/-- The timeline with the layers of the tracks behind its own. -/
def applyTo (set : TrackSet) (timeline : Timeline) (languages : Json) : Except Error Timeline := do
  return timeline.append (← set.layers languages)

/-- The filters that draw some layers on a canvas. -/
def drawingFilters (canvas : Command.Canvas) (defaultStyle : Option Style) (layers : List Layer) :
    Except Error (List Filter) :=
  layers.filterMapM fun layer ↦
    match Command.drawingOf layer.content with
    | some drawing => (Command.textFilter canvas defaultStyle layer drawing).map some
    | none => .ok none

/-- The filters that draw the tracks on the canvas of a timeline, as a chain. -/
def filterChain (set : TrackSet) (languages : Json) (timeline : Timeline) :
    Except Error String := do
  let layers ← set.layers languages
  let canvas ← Command.canvasOf { layers, options := timeline.options }
  let filters ← drawingFilters canvas timeline.options.defaultStyle layers
  return ",".intercalate (filters.map Filter.render)

end TrackSet
end Montage
