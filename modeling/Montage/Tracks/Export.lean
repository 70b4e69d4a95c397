import Montage.Subtitle.Validation
import Montage.Tracks.Basic

/-!
# Exporting and inspecting tracks

A track is written in one of the formats of subtitles.  In JSON the whole track is written, its
settings included; a script takes its title and style from the track.
-/

set_option autoImplicit false

namespace Montage

open scoped Elementary

/-! ## Exports -/

variable [Rounding]

omit [Rounding] in
/-- What a script says about a track. -/
def Track.heading (track : Track) : Script.Heading where
  title := match track.languageName with
    | some name => if name.isEmpty then track.language else name
    | none => track.language
  style := track.defaultStyle

/-- The text of a track in a format. -/
def Track.export (track : Track) (format : SubtitleFormat) (options : Option WriteOptions) :
    Except Error String :=
  match format with
  | .json => .ok (track.encode.text .track)
  | format => format.write options track.heading track.entries

namespace TrackSet

/-- The track of a language in a format that a request names. -/
def exportTrack (set : TrackSet) (language : String) (format : Json)
    (options : Option WriteOptions) : Except Error String := do
  let track ← set.track language
  track.export (← SubtitleFormat.ofRequest format) options

omit [Rounding] in
/-- What a request for the export of all tracks may hold beside the format. -/
def exportSignature : Signature := [.default "max_workers" (.whole 4)]

/-- All tracks in a format, each under its language, by falling priority. -/
def exportAll (set : TrackSet) (format : Json) (options : Option WriteOptions)
    (given : List (String × Json)) : Except Error (List (String × String)) := do
  let request ← Request.complete exportSignature given
  if ← (request.get "max_workers").isBelow 1 then throw (.refused .workerCount)
  set.ranked.mapM fun track ↦ do
    return (track.language, ← set.exportTrack track.language format options)

/-! ## Inspection -/

/-- Checks the subtitles of a track. -/
def validate (set : TrackSet) (language : String) : Except Error ValidationResult := do
  return Subtitle.validate (← set.track language).entries (.real (.finite 5))

/-- Numbers about all tracks. -/
structure Statistics where
  trackCount : Nat
  subtitleCount : Nat
  totalDuration : Number
  averageTextLength : Quantity
  distribution : List (String × Nat)
  deriving DecidableEq, Repr

/-- The sum of the lengths of subtitles; without any it is the whole number zero. -/
def totalDuration : List Subtitle → Number
  | [] => 0
  | subtitles => .real (subtitles.foldl (fun sum s ↦ sum.add s.length) (.finite 0))

/-- Numbers about the tracks. -/
def statistics (set : TrackSet) : Except Error Statistics := do
  let tracks := set.ranked
  let subtitles := tracks.flatMap (·.entries)
  let characters : Nat := subtitles.foldl (fun sum s ↦ sum + s.text.length) 0
  let average ← if subtitles.isEmpty then pure (.finite 0)
    else do (← (Number.whole characters).div (.whole subtitles.length)).toQuantity
  return {
    trackCount := tracks.length, subtitleCount := subtitles.length
    totalDuration := totalDuration subtitles, averageTextLength := average
    distribution := tracks.map fun track ↦ (track.language, track.entries.length) }

omit [Rounding] in
/-- The numbers as a document. -/
def Statistics.encode (numbers : Statistics) : Json := .obj [
  ("total_tracks", .whole numbers.trackCount), ("total_captions", .whole numbers.subtitleCount),
  ("total_duration", .num numbers.totalDuration),
  ("average_caption_length", .quantity numbers.averageTextLength),
  ("language_distribution", .obj (numbers.distribution.map fun (language, count) ↦
    (language, .whole count)))]

end TrackSet
end Montage
