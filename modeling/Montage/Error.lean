/-!
# What can go wrong

An error is a cause: which rule was broken and by what.  The wording of every cause is in the
functions `message` of this file and nowhere else.

Three families have a wording.  A *refusal* is a value that a rule of the library turns down, a
*mismatch* is a value of a kind that has no meaning where it stands, and a *construction fault*
is a builder or engine call that cannot be carried out, possibly because of another error.  The
remaining causes, such as a division by zero, speak for themselves and have none.
-/

set_option autoImplicit false

namespace Montage

/-- A value turned down by a rule about its range or its spelling. -/
inductive Refusal where
  | notFinite (name value : String)
  | readingSpeed
  | chunkLength
  | workerCount
  | positionPreset (name : String)
  | flipDirection (direction : String)
  | speedFactor
  | platform (name : String)
  deriving DecidableEq, Repr

/-- The wording of a refusal. -/
def Refusal.message : Refusal → String
  | .notFinite name value => name ++ " must be a finite number, got " ++ value
  | .readingSpeed => "words_per_minute must be positive"
  | .chunkLength => "max_duration must be positive"
  | .workerCount => "max_workers must be at least 1"
  | .positionPreset name => "Unknown position preset: " ++ name
  | .flipDirection direction => "Unknown flip direction: " ++ direction
  | .speedFactor => "speed factor must be positive"
  | .platform name => "Invalid platform: " ++ name

/-- A value whose kind has no meaning where it stands. -/
inductive Mismatch where
  | expression (kind : String)
  | position (kind : String)
  | pipeline (kind : String)
  deriving DecidableEq, Repr

/-- The wording of a mismatch. -/
def Mismatch.message : Mismatch → String
  | .expression kind => "Cannot build an expression from " ++ kind
  | .position kind => "Cannot build a Position from " ++ kind
  | .pipeline kind => "pipe function must return a Timeline, got " ++ kind

/-- The subject of a call that cannot be carried out. -/
inductive Construction where
  | layer (name : String)
  | globalOptions
  | style
  | animation
  | position
  | timelineDocument
  | captionTrack
  | caption
  | syncOptions
  | timedWord
  | timedWordShape
  | timedWordWithout (key : String)
  | captionWithoutText (index : Nat)
  | captionPreset (name : String)
  | noWords
  | wordPreset (name : String)
  | wordLimits
  | trimOrder (start stop : String)
  | emptyLanguage
  | placement
  deriving DecidableEq, Repr

/-- The wording of a construction fault, before the cause. -/
def Construction.message : Construction → String
  | .layer name => "Invalid " ++ name
  | .globalOptions => "Invalid global options"
  | .style => "Invalid style"
  | .animation => "Invalid animation"
  | .position => "Invalid position"
  | .timelineDocument => "Invalid timeline document"
  | .captionTrack => "Invalid caption track"
  | .caption => "Invalid caption"
  | .syncOptions => "Invalid sync options"
  | .timedWord => "Invalid timed word"
  | .timedWordShape => "Timed word must be (word, start, end)"
  | .timedWordWithout key => "Timed word is missing '" ++ key ++ "'"
  | .captionWithoutText index => "Caption " ++ toString index ++ " has no text"
  | .captionPreset name => "Unknown caption preset: " ++ name
  | .noWords => "add_word_highlighting requires text or words"
  | .wordPreset name => "Unknown word highlight preset: " ++ name
  | .wordLimits => "max_words_per_line and words_per_second must be positive"
  | .trimOrder start stop =>
    "trim end (" ++ stop ++ ") must be after start (" ++ start ++ ")"
  | .emptyLanguage => "language must not be empty"
  | .placement => ""

/-- Whether the cause is part of the wording; some subjects are always named alone. -/
def Construction.showsCause : Construction → Bool
  | .animation | .timedWord | .timedWordShape => false
  | _ => true

/-- A part of a subtitle document that a strict reader refuses. -/
inductive Unreadable where
  | srtBlock (number : Nat)
  | vttHeader
  | vttCue (number : Nat)
  | assLine (number : Nat)
  deriving DecidableEq, Repr

/-- The number by which the part is known in its document. -/
def Unreadable.number : Unreadable → Nat
  | .srtBlock n | .vttCue n | .assLine n => n
  | .vttHeader => 0

/-- The wording for a part of a subtitle document that a strict reader refuses. -/
def Unreadable.message : Unreadable → String
  | .srtBlock n => "Malformed SRT block " ++ toString n
  | .vttHeader => "Missing WEBVTT header"
  | .vttCue n => "Malformed WebVTT cue " ++ toString n
  | .assLine n => "Malformed ASS dialogue on line " ++ toString n

/-- The wording of a lenient reader for the same part, up to the excerpt of a block. -/
def Unreadable.warning : Unreadable → String
  | .srtBlock n => "Skipping malformed SRT block " ++ toString n
  | .vttHeader => "WebVTT document has no WEBVTT header"
  | .vttCue n => "Skipping malformed WebVTT cue " ++ toString n
  | .assLine n => "Skipping malformed ASS dialogue on line " ++ toString n

/-- A cause of failure. -/
inductive Error where
  /-- A number too large for the grid of quantities. -/
  | overflow
  | divisionByZero
  /-- A text or number that cannot be read as what is wanted. -/
  | badValue
  /-- An operation on a kind of value that does not have it. -/
  | badKind
  | missingKey
  | missingField
  /-- A text that is not a JSON document. -/
  | notJson
  /-- A document whose fields break their rules, with the paths of those fields. -/
  | invalid (fields : List String)
  | refused (refusal : Refusal)
  | mismatched (mismatch : Mismatch)
  | construction (subject : Construction)
  | constructionFrom (subject : Construction) (cause : Error)
  | unreadable (part : Unreadable) (block : String)
  /-- A caption document in JSON that cannot be taken, with the failing fields if it is JSON. -/
  | captionJson (fields : Option (List String))
  | noTrack (language : String)
  | unsupportedFormat (name : String)
  | unknownFormat
  | cannotRead (path : String)
  | cannotWrite (path : String)
  deriving Repr, Inhabited

namespace Error

/-- The wording of a cause, for the causes that have one. -/
def message? : Error → Option String
  | .refused refusal => some refusal.message
  | .mismatched mismatch => some mismatch.message
  | .construction subject => some subject.message
  | .constructionFrom subject cause =>
    some <| match cause.message? with
      | some text =>
        if subject = .placement then text
        else if subject.showsCause then subject.message ++ ": " ++ text
        else subject.message
      | none => subject.message
  | .unreadable part _ => some part.message
  | .captionJson _ => some "Invalid caption JSON"
  | .noTrack language => some ("No caption track for language '" ++ language ++ "'")
  | .unsupportedFormat name => some ("Unsupported subtitle format: " ++ name)
  | .unknownFormat => some "Could not detect subtitle format"
  | .cannotRead path => some ("Failed to read SRT file " ++ path)
  | .cannotWrite path => some ("Failed to write SRT file " ++ path)
  | _ => none

/-- The failing fields, for the causes that come from a document. -/
def fields? : Error → Option (List String)
  | .invalid fields => some fields
  | .constructionFrom _ cause => cause.fields?
  | .captionJson fields => fields
  | _ => none

/-- Whether the cause lies in a value rather than in its kind: builders turn such a cause into a
construction fault. -/
def isBadValue : Error → Bool
  | .badValue | .notJson | .invalid _ | .refused _ | .construction _ | .constructionFrom _ _
  | .unreadable _ _ | .captionJson _ | .unsupportedFormat _ | .unknownFormat => true
  | _ => false

/-- Whether the cause lies in the kind of a value. -/
def isBadKind : Error → Bool
  | .badKind | .mismatched _ => true
  | _ => false

/-- Whether a document's fields break their rules. -/
def isInvalid : Error → Bool
  | .invalid _ => true
  | _ => false

end Error

/-- Turns the causes that `catches` accepts into construction faults about `subject`. -/
def constructing {α : Type} (subject : Construction) (catches : Error → Bool)
    (action : Except Error α) : Except Error α :=
  match action with
  | .ok a => .ok a
  | .error e => .error (if catches e then .constructionFrom subject e else e)

end Montage
