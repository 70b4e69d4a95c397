import Montage.Document.Request
import Montage.Subtitle.Basic
import Montage.Subtitle.Srt

/-!
# Checking subtitles

Subtitles are checked in the order of their starts.  A start before zero and a window that does
not last are errors; what is merely hard to read is a warning: very short or long windows, no text
or much text, an overlap with the subtitle before, and a long silence after it.
-/

set_option autoImplicit false

namespace Montage

/-- Something found in a list of subtitles. -/
inductive Finding where
  | negativeStart (start : Quantity)
  | endNotAfterStart (start stop : Quantity)
  | veryShort (length : Quantity)
  | veryLong (length : Quantity)
  | emptyText
  | longText
  | overlap
  | gap (length : Quantity)
  deriving DecidableEq, Repr

namespace Finding

/-- The shortest time, in seconds, that is not very short. -/
def shortestTime : Quantity := binary64 (1 / 10)

/-- The longest time, in seconds, that is not very long. -/
def longestTime : Quantity := .finite 10

/-- The longest text, in characters, that is not long. -/
def longestText : Nat := 100

/-- Whether a finding makes subtitles invalid. -/
def isError : Finding → Bool
  | negativeStart _ | endNotAfterStart _ _ => true
  | _ => false

/-- A time in a finding. -/
def timeText (x : Quantity) : String := x.display .plain

/-- The wording of a finding. -/
def message : Finding → String
  | negativeStart start => "negative start time (" ++ timeText start ++ ")"
  | endNotAfterStart start stop =>
    "end time (" ++ timeText stop ++ ") must be after start time (" ++ timeText start ++ ")"
  | veryShort length => "very short display time (" ++ length.fixed 3 ++ "s)"
  | veryLong length => "very long display time (" ++ length.fixed 3 ++ "s)"
  | emptyText => "empty text"
  | longText => "text longer than " ++ toString longestText ++ " characters"
  | overlap => "overlaps previous entry"
  | gap length => "gap of " ++ length.fixed 1 ++ "s after previous entry"

end Finding

/-- Numbers about a list of subtitles. -/
structure ValidationStats where
  entryCount : Nat := 0
  totalDuration : Quantity := .finite 0
  averageDisplayTime : Quantity := .finite 0
  overlappingCount : Nat := 0
  gapCount : Nat := 0
  deriving DecidableEq, Repr

/-- What a check of subtitles found. -/
structure ValidationResult where
  errors : List String
  warnings : List String
  stats : ValidationStats
  deriving DecidableEq, Repr

namespace ValidationResult

/-- Subtitles without errors are valid. -/
def isValid (result : ValidationResult) : Bool := result.errors.isEmpty

/-- A result as a document. -/
def encode (result : ValidationResult) : Json :=
  let texts (lines : List String) : Json := .arr (lines.map .str)
  .obj [("valid", .bool result.isValid), ("errors", texts result.errors),
    ("warnings", texts result.warnings),
    ("stats", .obj [("entry_count", .whole result.stats.entryCount),
      ("total_duration", .quantity result.stats.totalDuration),
      ("average_display_time", .quantity result.stats.averageDisplayTime),
      ("overlapping_count", .whole result.stats.overlappingCount),
      ("gap_count", .whole result.stats.gapCount)])]

end ValidationResult

namespace Subtitle

variable [Rounding]

/-! ## One subtitle -/

omit [Rounding] in
/-- Whether a subtitle ends when or before it starts. -/
def endsEarly (subtitle : Subtitle) : Bool := subtitle.stop.le subtitle.start

/-- The findings about the window of a subtitle. -/
def windowFindings (subtitle : Subtitle) : List Finding :=
  (if subtitle.start.lt (.finite 0) then [.negativeStart subtitle.start] else [])
    ++ (if subtitle.endsEarly then [.endNotAfterStart subtitle.start subtitle.stop]
      else if subtitle.length.lt Finding.shortestTime then [.veryShort subtitle.length]
      else if Finding.longestTime.lt subtitle.length then [.veryLong subtitle.length]
      else [])

omit [Rounding] in
/-- The findings about the text of a subtitle. -/
def textFindings (subtitle : Subtitle) : List Finding :=
  if subtitle.isBlank then [.emptyText]
  else if Finding.longestText < subtitle.text.length then [.longText]
  else []

/-- The findings about a subtitle and the one before it.  Silence counts from a threshold on. -/
def neighbourFindings (threshold : Number) (previous : Option Subtitle) (subtitle : Subtitle) :
    List Finding :=
  match previous with
  | none => []
  | some previous =>
    let silence := subtitle.start.sub previous.stop
    if subtitle.start.lt previous.stop then [.overlap]
    else if threshold.lt (.real silence) then [.gap silence]
    else []

/-- The findings about a subtitle. -/
def findings (threshold : Number) (previous : Option Subtitle) (subtitle : Subtitle) :
    List Finding :=
  subtitle.windowFindings ++ subtitle.textFindings
    ++ subtitle.neighbourFindings threshold previous

/-! ## A list of subtitles -/

/-- The findings about subtitles in order, each with the place of its subtitle. -/
def findingsFrom (threshold : Number) : Nat → Option Subtitle → List Subtitle → List (Nat × Finding)
  | _, _, [] => []
  | place, previous, subtitle :: rest =>
    (subtitle.findings threshold previous).map (Prod.mk place)
      ++ findingsFrom threshold (place + 1) (some subtitle) rest

omit [Rounding] in
/-- The wording of a finding about the subtitle at a place. -/
def report (found : Nat × Finding) : String :=
  "Entry " ++ toString found.1 ++ ": " ++ found.2.message

/-- The sum of the windows that last. -/
def totalLength (subtitles : List Subtitle) : Quantity :=
  (subtitles.filter fun s ↦ !s.endsEarly).foldl (fun sum s ↦ sum.add s.length) (.finite 0)

/-- Checks subtitles. -/
def validate (subtitles : List Subtitle) (threshold : Number) : ValidationResult :=
  let ordered := sorted subtitles
  let found := findingsFrom threshold 1 none ordered
  let (errors, warnings) := found.partition fun f ↦ f.2.isError
  let total := totalLength ordered
  let stats : ValidationStats := {
    entryCount := ordered.length
    totalDuration := total
    averageDisplayTime :=
      if ordered.isEmpty then .finite 0 else total.div (.finite (ordered.length : Rat))
    overlappingCount := (found.filter fun f ↦ f.2 = .overlap).length
    gapCount := (found.filter fun f ↦ match f.2 with
      | .gap _ => true
      | _ => false).length }
  { errors := errors.map report, warnings := warnings.map report, stats }

omit [Rounding] in
/-- What a request for a check may hold. -/
def validationSignature : Signature := [.default "gap_threshold" (.quantity (.finite 5))]

omit [Rounding] in
/-- Whether some subtitle does not overlap the one before it. -/
def hasSilence : List Subtitle → Bool
  | previous :: subtitle :: rest =>
    !subtitle.start.lt previous.stop || hasSilence (subtitle :: rest)
  | _ => false

/-- Checks subtitles with the threshold of a request, which is looked at only where there may be
silence. -/
def validateBy (request : Request) (subtitles : List Subtitle) : Except Error ValidationResult := do
  if hasSilence (sorted subtitles) then
    return validate subtitles (← (request.get "gap_threshold").number)
  return validate subtitles 0

/-- Checks subtitles as a request asks for. -/
def validateFor (subtitles : List Subtitle) (given : List (String × Json)) :
    Except Error ValidationResult := do
  validateBy (← Request.complete validationSignature given) subtitles

/-- Checks the subtitles of an SRT document as a request asks for; a request that is none is refused
before the document is read. -/
def validateText (content : Json) (options : ReadOptions) (given : List (String × Json)) :
    Reported ValidationResult := do
  let request ← (Request.complete validationSignature given : Except Error Request)
  let subtitles ← Srt.read options (← (content.asSubject : Except Error String))
  let result ← (validateBy request subtitles : Except Error ValidationResult)
  return result

end Subtitle
end Montage
