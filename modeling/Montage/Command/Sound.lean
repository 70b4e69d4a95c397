import Montage.Command.Picture

/-!
# Sound

The sound of an audio layer, or of a video that keeps it, is prepared by a chain of filters: it is
cut, moved to zero, limited to its duration, changed in tempo and tone, faded, and delayed to its
start.

A tempo outside the range of its filter is split into steps that multiply to it.  How many these
are is not known before, and those of an infinite tempo never come to an end.
-/

set_option autoImplicit false

namespace Montage
namespace Command

variable [Rounding]

/-- A loop: whether it goes on, and where to. -/
structure Loop (α : Type) where
  goesOn : α → Bool
  next : α → α

omit [Rounding] in
/-- How many rounds a loop takes, counted from `count` on, and where it ends.  It has no end if it
goes on for ever. -/
def Loop.run {α : Type} (loop : Loop α) (count : Nat) (x : α) : Option (Nat × α) :=
  if loop.goesOn x then loop |>.run (count + 1) (loop.next x) else some (count, x)
partial_fixpoint

/-- Takes a step out of a tempo for as long as the tempo is beyond a bound. -/
def stepLoop (isBeyond : Quantity → Bool) (step : Quantity) : Loop Quantity where
  goesOn := isBeyond
  next left := left.div step

/-- How often a step is taken out of a tempo, and what is left of it. -/
def takeSteps (isBeyond : Quantity → Bool) (step tempo : Quantity) : Option (Nat × Quantity) :=
  (stepLoop isBeyond step).run 0 tempo

omit [Rounding] in
/-- Whether a tempo is above the range from a half to two. -/
def isFast (tempo : Quantity) : Bool := Quantity.lt (.finite 2) tempo

omit [Rounding] in
/-- Whether a tempo is below that range. -/
def isSlow (tempo : Quantity) : Bool := tempo.lt (.finite (1 / 2))

/-- The whole steps of a tempo beyond the range, and what is left of it. -/
def tempoParts (tempo : Quantity) : Option (List Quantity × Quantity) := do
  let two := Quantity.finite 2
  let half := Quantity.finite (1 / 2)
  let (twos, left) ← takeSteps isFast two tempo
  let (halves, left) ← takeSteps isSlow half left
  return (List.replicate twos two ++ List.replicate halves half, left)

/-- The steps of a tempo, the last one rounded to six places. -/
def tempoChain (tempo : Quantity) : Option (List Quantity) :=
  (tempoParts tempo).map fun (whole, last) ↦ whole ++ [last.roundPlaces 6]

/-- The filters of a tempo, if its steps come to an end. -/
def tempoFilters (tempo : Option Quantity) : Except Error (List Filter) :=
  match tempo with
  | none => .ok []
  | some tempo =>
    if tempo.eq (.finite 1) then .ok []
    else match tempoChain tempo with
      | some steps => .ok (steps.map fun step ↦ .withArgs "atempo" [.quantity step])
      | none => .error .overflow

omit [Rounding] in
/-- A filter that lets frequencies on one side of a limit pass. -/
def passFilter (name : String) (limit : Option Quantity) : List Filter :=
  match limit with
  | some limit => if limit.eq (.finite 0) then [] else [.named name [("f", .quantity limit)]]
  | none => []

/-- The filter of an echo, its delay in whole milliseconds. -/
def echoFilters (audio : Audio) : Except Error (List Filter) := do
  match audio.echoDelay with
  | none => return []
  | some delay =>
    if delay.eq (.finite 0) then return []
    let milliseconds ← (← (Number.real delay).mul 1000).wholePart
    let decay := match audio.echoDecay with
      | some decay => decay
      | none => .finite (1 / 2)
    return [.withArgs "aecho" [.quantity (binary64 (8 / 10)), .quantity (binary64 (9 / 10)),
      .num (.whole milliseconds), .quantity decay]]

omit [Rounding] in
/-- The filter of a volume other than one. -/
def volumeFilters (volume : Quantity) : List Filter :=
  if volume.eq (.finite 1) then [] else [.withArgs "volume" [.quantity volume]]

/-- The filters that fade a sound in and out; the fade at the end stops with the clip. -/
def soundFades (canvas : Canvas) (layer : Layer) (audio : Audio) : List Filter :=
  let fade (direction : String) (start length : Quantity) : Filter :=
    .named "afade" [("t", .plain direction), ("st", .quantity start), ("d", .quantity length)]
  let opening := match audio.fadeIn with
    | some length => if length.eq (.finite 0) then [] else [fade "in" (.finite 0) length]
    | none => []
  let closing := match audio.fadeOut with
    | some length =>
      if length.eq (.finite 0) then []
      else
        let clip := (effectiveEnd canvas layer).sub layer.startTime
        [fade "out" (Quantity.max (.finite 0) (clip.sub length)) length]
    | none => []
  opening ++ closing

/-- The filter that delays a sound to the start of its layer, in whole milliseconds. -/
def delayFilters (start : Quantity) : Except Error (List Filter) := do
  if !Quantity.lt (.finite 0) start then return []
  let milliseconds ← (← (Number.real start).mul 1000).roundWhole
  let text := toString milliseconds
  return [.withArgs "adelay" [.plain (text ++ "|" ++ text)]]

/-- The sound of a layer. -/
inductive Sound where
  | video (video : Video)
  | audio (audio : Audio)

namespace Sound

omit [Rounding] in
/-- The sound of a layer, if it has one. -/
def ofContent : Content → Option Sound
  | .video v => if v.audio then some (video v) else none
  | .audio a => some (audio a)
  | _ => none

omit [Rounding] in
/-- The file of a sound. -/
def source : Sound → Source
  | video v => v.source
  | audio a => a.source

omit [Rounding] in
/-- How loud a sound is. -/
def volume : Sound → Quantity
  | video v => v.volume
  | audio a => a.volume

omit [Rounding] in
/-- The audio layer of a sound that has one. -/
def audio? : Sound → Option Audio
  | video _ => none
  | audio a => some a

end Sound

/-- The filters that change tempo and tone, which only audio layers have. -/
def toneFilters (audio : Audio) : Except Error (List Filter) := do
  let tempo ← tempoFilters audio.tempo
  let echo ← echoFilters audio
  return tempo ++ passFilter "highpass" audio.highpass ++ passFilter "lowpass" audio.lowpass ++ echo

/-- The filters that prepare the sound of a layer. -/
def soundFilters (canvas : Canvas) (layer : Layer) (sound : Sound) :
    Except Error (List Filter) := do
  let reset ← (Expr.var "PTS").sub (.var "STARTPTS")
  let limit := match layer.duration with
    | some duration => [Filter.named "atrim" [("duration", .quantity duration)]]
    | none => []
  let tone ← match sound.audio? with
    | some audio => toneFilters audio
    | none => pure []
  let fades := match sound.audio? with
    | some audio => soundFades canvas layer audio
    | none => []
  let delay ← delayFilters layer.startTime
  return cutFilter "atrim" sound.source ++ [.withArgs "asetpts" [.expr reset]] ++ limit ++ tone
    ++ volumeFilters sound.volume ++ fades ++ delay

end Command
end Montage
