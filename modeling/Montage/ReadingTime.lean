import Montage.Document.Request

/-!
# Reading time

How long a text should stay on screen: its words at a reading speed, with some padding, and not
shorter or longer than two bounds.  Speed, bounds and padding are the values of a request, and each
of them is looked at in its turn: the speed, then the text, the padding, the upper bound and the
lower one.
-/

set_option autoImplicit false

namespace Montage

/-- How many words a text has. -/
def wordCount (text : String) : Nat := (wordsOf text).length

/-- How fast a text is read, and the bounds of its time on screen. -/
structure ReadingPace where
  wordsPerMinute : Json
  shortest : Json := .quantity (.finite 1)
  longest : Json := .quantity (.finite 10)
  padding : Json := .quantity (.finite (1 / 2))
  deriving Repr

namespace ReadingPace

variable [Rounding]

/-- The seconds that a text takes to read, with the padding and without bounds.  A speed that nobody
reads at is refused before the text is looked at. -/
def seconds (pace : ReadingPace) (text : Json) : Except Error Number := do
  let speed ← pace.wordsPerMinute.number
  if speed.le 0 then throw (.refused .readingSpeed)
  let minutes ← (Number.whole (wordCount (← text.asText))).div speed
  (← minutes.mul 60).add (← pace.padding.number)

omit [Rounding] in
/-- The upper bound, if the seconds are not below it. -/
def capped (pace : ReadingPace) (seconds : Number) : Except Error Json := do
  let longest ← pace.longest.number
  return if seconds.lt longest then .num seconds else pace.longest

omit [Rounding] in
/-- The lower bound, unless the time is above it. -/
def raised (pace : ReadingPace) (time : Json) : Except Error Json := do
  let shortest ← pace.shortest.number
  return if shortest.lt (← time.number) then time else pace.shortest

/-- The time in seconds for which a text stays on screen. -/
def time (pace : ReadingPace) (text : Json) : Except Error Json := do
  pace.raised (← pace.capped (← pace.seconds text))

omit [Rounding] in
/-- What a request for a reading time may hold. -/
def signature : Signature := [
  .default "words_per_minute" (.whole 200), .default "min_duration" (.quantity (.finite 1)),
  .default "max_duration" (.quantity (.finite 10)),
  .default "padding" (.quantity (.finite (1 / 2)))]

/-- The reading time of a text at the pace that a request asks for. -/
def timeOfRequest (text : Json) (given : List (String × Json)) : Except Error Json := do
  let request ← Request.complete signature given
  let pace : ReadingPace := {
    wordsPerMinute := request.get "words_per_minute", shortest := request.get "min_duration"
    longest := request.get "max_duration", padding := request.get "padding" }
  pace.time text

end ReadingPace
end Montage
