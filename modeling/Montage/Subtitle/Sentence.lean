import Montage.ReadingTime
import Montage.Subtitle.Basic

/-!
# Subtitles from running text

A text becomes one subtitle for each sentence.  A sentence reaches to the marks that end it, or to
the end of the text; marks that end nothing are dropped.  The subtitles follow each other with a
gap, each for its reading time.
-/

set_option autoImplicit false

namespace Montage
namespace Subtitle

/-! ## Sentences -/

/-- Whether a character ends a sentence. -/
def isSentenceEnd (c : Char) : Bool := c == '.' || c == '!' || c == '?'

/-- The sentences of a text, where `current` holds the characters of the current one, last one
first, and `ended` says whether its end marks have begun. -/
def sentencesFrom (current : List Char) (ended : Bool) : List Char → List (List Char)
  | [] => if current.isEmpty then [] else [current.reverse]
  | c :: rest =>
    if isSentenceEnd c then
      if current.isEmpty then sentencesFrom [] false rest
      else sentencesFrom (c :: current) true rest
    else if ended then current.reverse :: sentencesFrom [c] false rest
    else sentencesFrom (c :: current) false rest

/-- The sentences of a text, without blanks at their ends; those of nothing but blanks are left
out. -/
def sentences (s : List Char) : List (List Char) :=
  ((sentencesFrom [] false s).map trim).filter fun sentence ↦ !sentence.isEmpty

/-! ## Subtitles -/

variable [Rounding]

/-- The subtitles of sentences from a place and a time on. -/
def spokenFrom (pace : ReadingPace) (gap : Json) :
    Nat → Number → List (List Char) → Except Error (List Subtitle)
  | _, _, [] => .ok []
  | place, start, sentence :: rest => do
    let text := String.ofList sentence
    let length ← (← pace.time (.str text)).number
    let stop ← start.add length
    let subtitle : Subtitle := {
      id := "srt_" ++ toString place, index := place, text, start := ← start.toQuantity
      stop := ← stop.toQuantity }
    let next ← start.add (← length.add (← gap.number))
    return subtitle :: (← spokenFrom pace gap (place + 1) next rest)

omit [Rounding] in
/-- What a request for subtitles from a text may hold. -/
def sentenceSignature : Signature := [
  .default "words_per_minute" (.whole 150), .default "min_duration" (.quantity (.finite 1)),
  .default "max_duration" (.quantity (.finite 5)), .default "gap" (.quantity (binary64 (1 / 10)))]

/-- The subtitles of a text, at the pace of a request. -/
def ofSentences (text : Json) (given : List (String × Json)) : Except Error (List Subtitle) := do
  let request ← Request.complete sentenceSignature given
  let spoken := sentences (← text.asSubject).toList
  let pace : ReadingPace := {
    wordsPerMinute := request.get "words_per_minute", shortest := request.get "min_duration"
    longest := request.get "max_duration", padding := .quantity (.finite 0) }
  spokenFrom pace (request.get "gap") 1 (.real (.finite 0)) spoken

end Subtitle
end Montage
