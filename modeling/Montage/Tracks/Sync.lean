import Montage.Tracks.Basic

/-!
# Moving subtitles to cues

Each subtitle of a track moves to the cue that is nearest to its start, as long as one is within
the radius; only cues with enough confidence count, and of several equally near ones the first.
The subtitle keeps its length, and the track is put in order afterwards.
-/

set_option autoImplicit false

namespace Montage

variable [Rounding]

/-- How far a cue is from the start of a subtitle. -/
def Cue.distance (cue : Cue) (subtitle : Subtitle) : Quantity :=
  (cue.time.sub subtitle.start).abs

namespace Subtitle

/-- The nearer of the cue that was nearest so far and another one, within a radius. -/
def nearer (radius : Quantity) (subtitle : Subtitle) (nearest : Option Cue) (cue : Cue) :
    Option Cue :=
  if (cue.distance subtitle).le radius then
    match nearest with
    | none => some cue
    | some other =>
      if (cue.distance subtitle).lt (other.distance subtitle) then some cue else nearest
  else nearest

/-- The nearest cue within a radius. -/
def nearestCue (radius : Quantity) (cues : List Cue) (subtitle : Subtitle) : Option Cue :=
  cues.foldl (subtitle.nearer radius) none

/-- The subtitle at its nearest cue, and whether it has moved. -/
def moved (radius : Quantity) (cues : List Cue) (subtitle : Subtitle) : Subtitle × Bool :=
  match subtitle.nearestCue radius cues with
  | none => (subtitle, false)
  | some cue =>
    if cue.time.eq subtitle.start then (subtitle, false)
    else (subtitle.shifted (cue.time.sub subtitle.start), true)

end Subtitle

/-- The track with its subtitles at their cues, and how many have moved. -/
def Track.synchronized (track : Track) (radius : Quantity) (cues : List Cue) : Track × Nat :=
  let moves := track.entries.map (Subtitle.moved radius cues)
  (Track.sorted { track with entries := moves.map (·.1) }, (moves.filter (·.2)).length)

namespace TrackSet

/-- Moves the subtitles of a track to cues; says how many have moved. -/
def synchronize (set : TrackSet) (language : String) (cues : Json) :
    TrackSet × Except Error Nat :=
  match set.find? language with
  | none => (set, .error (.noTrack language))
  | some held =>
    match (do (← cues.elements).mapM Cue.ofRequest : Except Error (List Cue)) with
    | .error e => (set, .error e)
    | .ok cues =>
      let sure := cues.filter fun cue ↦ set.sync.syncConfidence.lt cue.confidence
      let (track, moved) := held.track.synchronized set.sync.syncRadius sure
      (set.put language { held with track }, .ok moved)

end TrackSet
end Montage
