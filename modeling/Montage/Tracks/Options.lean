import Montage.Document.Request
import Montage.ReadingTime
import Montage.Text.Split

/-!
# Timing of tracks

How long subtitles stay where nobody says it, how their lines are broken, and how they follow the
sound: a cue is a time at which something is heard, with the confidence in it.
-/

set_option autoImplicit false

namespace Montage

/-- How the subtitles of tracks are timed, broken into lines and moved to cues. -/
structure SyncOptions where
  minDuration : Quantity := .finite 1
  maxDuration : Quantity := .finite 7
  /-- The seconds between two subtitles of a sequence. -/
  gap : Quantity := binary64 (1 / 10)
  /-- Words per minute. -/
  readingSpeed : Quantity := .finite 200
  autoBreak : Bool := true
  maxCharsPerLine : Int := 60
  maxLines : Int := 2
  /-- A cue counts if the confidence in it is higher. -/
  syncConfidence : Quantity := binary64 (8 / 10)
  /-- A cue counts for a subtitle that starts at most so far away, in seconds. -/
  syncRadius : Quantity := .finite 1
  deriving DecidableEq, Repr

namespace SyncOptions

/-- Options as a document. -/
def encode (options : SyncOptions) : Json := .obj [
  ("min_duration", .quantity options.minDuration), ("max_duration", .quantity options.maxDuration),
  ("gap", .quantity options.gap), ("reading_speed", .quantity options.readingSpeed),
  ("auto_break", .bool options.autoBreak),
  ("max_chars_per_line", .whole options.maxCharsPerLine), ("max_lines", .whole options.maxLines),
  ("sync_confidence", .quantity options.syncConfidence),
  ("sync_radius", .quantity options.syncRadius)]

/-- The text's time on screen has no padding on a track. -/
def pace (options : SyncOptions) : ReadingPace where
  wordsPerMinute := .quantity options.readingSpeed
  shortest := .quantity options.minDuration
  longest := .quantity options.maxDuration
  padding := .quantity (.finite 0)

variable [Rounding]

/-- The options that a document of changes makes of others. -/
def decodeOver (base : SyncOptions) : Decoder SyncOptions := Decoder.object fun document ↦
  let above (x : Quantity) : Bool := Quantity.lt (.finite 0) x
  let notBelow (x : Quantity) : Bool := Quantity.le (.finite 0) x
  let count := Decoder.whole.such fun n ↦ 0 < n
  SyncOptions.mk
    <$> Decoder.plainField "minDuration" base.minDuration (Decoder.quantity.such notBelow) document
    <*> Decoder.plainField "maxDuration" base.maxDuration (Decoder.quantity.such above) document
    <*> Decoder.plainField "gap" base.gap Decoder.quantity document
    <*> Decoder.plainField "readingSpeed" base.readingSpeed (Decoder.quantity.such above) document
    <*> Decoder.plainField "autoBreak" base.autoBreak Decoder.flag document
    <*> Decoder.plainField "maxCharsPerLine" base.maxCharsPerLine count document
    <*> Decoder.plainField "maxLines" base.maxLines count document
    <*> Decoder.plainField "syncConfidence" base.syncConfidence Decoder.quantity document
    <*> Decoder.plainField "syncRadius" base.syncRadius Decoder.quantity document

/-- Options from a document. -/
def decode : Decoder SyncOptions := decodeOver {}

end SyncOptions

/-- A time at which something is heard. -/
structure Cue where
  time : Quantity
  confidence : Quantity := .finite 1
  deriving DecidableEq, Repr

namespace Cue

/-- A cue as a document. -/
def encode (cue : Cue) : Json := .obj [
  ("time", .quantity cue.time), ("confidence", .quantity cue.confidence)]

variable [Rounding]

/-- A cue from a document. -/
def decode : Decoder Cue := Decoder.object fun document ↦
  Cue.mk <$> Decoder.plainNeeded "time" Decoder.quantity document
    <*> Decoder.plainField "confidence" (.finite 1) Decoder.quantity document

/-- A cue from what a caller may give: a document, or a time and a confidence in a row. -/
def ofRequest : Json → Except Error Cue
  | .obj members => (decode (.obj members)).toExcept
  | value => do
    match ← value.elements with
    | [time, confidence] =>
      (decode (.obj [("time", time), ("confidence", confidence)])).toExcept
    | _ => throw .badValue

end Cue

/-! ## Lines

The words of a text go greedily to lines of a limited length.  If there are more lines than
allowed, the last allowed one takes all that remains. -/

namespace SyncOptions

/-- A line with a word behind it. -/
def lineWith (line word : String) : String := if line.isEmpty then word else line ++ " " ++ word

/-- The lines of some words, where `line` is the current one.  A word that is longer than the limit
stands alone. -/
def linesFrom (limit : Int) (line : String) : List String → List String
  | [] => if line.isEmpty then [] else [line]
  | word :: rest =>
    if line.isEmpty || (lineWith line word).length ≤ limit then
      linesFrom limit (lineWith line word) rest
    else line :: linesFrom limit word rest

/-- The lines, the last allowed one of which takes all that remains. -/
def foldLines (most : Nat) (lines : List String) : List String :=
  if most < lines.length then
    lines.take (most - 1) ++ [" ".intercalate (lines.drop (most - 1))]
  else lines

/-- The lines of a text. -/
def breakLines (options : SyncOptions) (text : String) : List String :=
  foldLines options.maxLines.toNat (linesFrom options.maxCharsPerLine "" (wordsOf text))

/-- A text with its lines broken. -/
def brokenText (options : SyncOptions) (text : String) : String :=
  "\n".intercalate (options.breakLines text)

end SyncOptions
end Montage
