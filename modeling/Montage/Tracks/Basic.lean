import Montage.Layer.Document
import Montage.Report
import Montage.Subtitle.Format
import Montage.Tracks.Options

/-!
# Tracks of several languages

A set of tracks holds one track for each language, in the order in which the languages first came
in.  The subtitles of a track stand in the order of their starts at all times, and are named after
the track and a count of the names that it has given out.

The operations give the set that results together with what they yield, because an operation that
fails may have changed the set before: an insertion that fails after its times were accepted has
used up a name, and a sequence or an import that fails keeps what it has put in.
-/

set_option autoImplicit false

namespace Montage

/-- A track, and how many names it has given to subtitles. -/
structure HeldTrack where
  track : Track
  issued : Nat := 0
  deriving Repr

/-- What tracks look like where nothing is said. -/
def trackStyle : Style := {
  fontFamily := some "Arial", fontSize := some (.finite 32), fontWeight := some "bold"
  color := some "#ffffff", strokeColor := some "#000000", strokeWidth := some (.finite 2)
  textAlign := some "center" }

/-- Tracks by their languages. -/
structure TrackSet where
  held : List (String × HeldTrack) := []
  defaults : Style := trackStyle
  sync : SyncOptions := {}
  deriving Repr

namespace TrackSet

/-! ## Access -/

/-- The track of a language with its count. -/
def find? (set : TrackSet) (language : String) : Option HeldTrack :=
  Json.lookup? language set.held

/-- The track of a language. -/
def track (set : TrackSet) (language : String) : Except Error Track :=
  match set.find? language with
  | some held => .ok held.track
  | none => .error (.noTrack language)

/-- The set with another track for a language. -/
def put (set : TrackSet) (language : String) (held : HeldTrack) : TrackSet :=
  { set with held := Json.put language held set.held }

/-- The set with the track of a language changed. -/
def modify (set : TrackSet) (language : String) (change : HeldTrack → HeldTrack) : TrackSet :=
  { set with
    held := set.held.map fun member ↦
      if member.1 = language then (member.1, change member.2) else member }

/-- The tracks by falling priority; those of one priority in the order in which they came in. -/
def ranked (set : TrackSet) : List Track :=
  (set.held.map fun member ↦ member.2.track).mergeSort fun a b ↦ b.priority ≤ a.priority

/-- The set without the track of a language, and whether there was one. -/
def remove (set : TrackSet) (language : String) : TrackSet × Bool :=
  ({ set with held := set.held.filter fun member ↦ member.1 ≠ language },
    (set.find? language).isSome)

/-- Shows or hides the track of a language. -/
def enable (set : TrackSet) (language : String) (enabled : Json) : TrackSet × Except Error Unit :=
  match set.find? language with
  | none => (set, .error (.noTrack language))
  | some held =>
    (set.put language { held with track := { held.track with enabled } }, .ok ())

variable [Rounding]

/-! ## Settings -/

/-- Lays a style over the one that new tracks get. -/
def setDefaults (set : TrackSet) (style : Json) : Except Error TrackSet := do
  return { set with defaults := set.defaults.merged [← Style.coerce style] }

/-- Changes the timing: to given options or else the present ones, and then by single values. -/
def setSync (set : TrackSet) (options : Option SyncOptions) (changes : List (String × Json)) :
    Except Error TrackSet := do
  let sync ← constructing .syncOptions Error.isInvalid
    ((options.getD set.sync).decodeOver (.obj changes)).toExcept
  return { set with sync }

/-! ## Creating tracks -/

omit [Rounding] in
/-- What a request for a track may hold beside its language. -/
def trackSignature : Signature := [
  .absent "language_name", .absent "default_style", .absent "position",
  .default "priority" (.whole 0)]

/-- The track that a request asks for. -/
def newTrack (set : TrackSet) (language : String) (request : Request) : Except Error Track :=
  constructing .captionTrack Error.isBadValue do
    let style ← Style.coerce (request.get "default_style")
    let position ← Layer.givenPosition (request.get "position")
    let document := request.document
    let (languageName, priority) ← (Prod.mk
      <$> Decoder.optField "languageName" Decoder.text document
      <*> Decoder.field "priority" 0 Decoder.whole document).toExcept
    return {
      id := "track_" ++ language, language, languageName
      defaultStyle := some (set.defaults.merged [style]), position, priority }

omit [Rounding] in
/-- The language that a request names, which is a text with something in it. -/
def languageOf : Json → Except Error String
  | .str language =>
    if isAllBlank language then .error (.construction .emptyLanguage) else .ok language
  | value => .error (if value.isTruthy then .missingField else .construction .emptyLanguage)

/-- Creates the empty track of a language; it takes the place of one that is there. -/
def create (set : TrackSet) (language : Json) (given : List (String × Json)) :
    TrackSet × Reported Track :=
  let made : Reported (String × Track) := do
    let request ← (Request.complete trackSignature given : Except Error Request)
    let language ← (languageOf language : Except Error String)
    if (set.find? language).isSome then Reported.warn (.replacedTrack language)
    let track ← (set.newTrack language request : Except Error Track)
    return (language, track)
  match made.result with
  | .ok (language, track) => (set.put language { track }, Prod.snd <$> made)
  | .error _ => (set, Prod.snd <$> made)

/-! ## Inserting subtitles -/

/-- A subtitle to be inserted.  Its parts are settled when its name has been given out. -/
structure Draft where
  text : Json
  start : Json
  stop : Json
  style : Except Error (Option Style)
  position : Except Error (Option Position)
  animation : Except Error (Option Animation)
  metadata : Json

namespace Draft

/-- Refuses a time that is not finite; a time that is missing is refused later. -/
def checkTime (name : String) (time : Json) : Except Error Unit :=
  match time with
  | .null => .ok ()
  | time => do checkFinite name (Number.display .plain) (← time.number)

/-- Refuses times that are not finite. -/
def checkTimes (draft : Draft) : Except Error Unit :=
  constructing .caption Error.isBadValue do
    checkTime "start_time" draft.start
    checkTime "end_time" draft.stop

/-- The subtitle of a draft under a name. -/
def subtitle (draft : Draft) (id : String) : Except Error Subtitle :=
  constructing .caption Error.isBadValue do
    let style ← draft.style
    let position ← draft.position
    let animation ← draft.animation
    let metadata := if draft.metadata.isTruthy then draft.metadata else .obj []
    let document := .obj [("text", draft.text), ("startTime", draft.start),
      ("endTime", draft.stop), ("metadata", metadata)]
    let made ← (Subtitle.decode document).toExcept
    return { made with id, style, position, animation }

omit [Rounding] in
/-- The draft that says what a subtitle says, name and index apart. -/
def ofSubtitle (subtitle : Subtitle) : Draft where
  text := .str subtitle.text
  start := .quantity subtitle.start
  stop := .quantity subtitle.stop
  style := .ok subtitle.style
  position := .ok subtitle.position
  animation := .ok subtitle.animation
  metadata := .obj subtitle.metadata

omit [Rounding] in
/-- What a request for a subtitle may hold. -/
def signature : Signature := [
  .given "text", .given "start_time", .given "end_time", .absent "style", .absent "position",
  .absent "animation", .absent "metadata"]

/-- The draft that a request asks for. -/
def ofRequest (given : List (String × Json)) : Except Error Draft := do
  let request ← Request.complete signature given
  return {
    text := request.get "text", start := request.get "start_time", stop := request.get "end_time"
    style := Style.coerce (request.get "style")
    position := Layer.givenPosition (request.get "position")
    animation := Animation.coerce (request.get "animation") Animation.defaultDuration
    metadata := request.get "metadata" }

end Draft

omit [Rounding] in
/-- The place behind all subtitles that start at a time or before. -/
def placeFor (start : Json) (entries : List Subtitle) : Nat :=
  match start.number? with
  | some time => bisect (fun entry ↦ time.lt (.real entry.start)) entries 0 entries.length
  | none => entries.length

/-- Inserts a subtitle behind those that start at its start or before. -/
def insert (set : TrackSet) (language : String) (draft : Draft) :
    TrackSet × Except Error Subtitle :=
  match set.find? language with
  | none => (set, .error (.noTrack language))
  | some held =>
    match draft.checkTimes with
    | .error e => (set, .error e)
    | .ok () =>
      let issued := held.issued + 1
      match draft.subtitle (held.track.id ++ "_" ++ toString issued) with
      | .error e => (set.put language { held with issued }, .error e)
      | .ok subtitle =>
        let place := placeFor draft.start held.track.entries
        let entries := Subtitle.numbered (insertAt place subtitle held.track.entries)
        (set.put language { track := { held.track with entries }, issued },
          .ok { subtitle with index := (place : Int) + 1 })

/-- Inserts the subtitle that a request asks for. -/
def add (set : TrackSet) (language : String) (given : List (String × Json)) :
    TrackSet × Except Error Subtitle :=
  match Draft.ofRequest given with
  | .ok draft => set.insert language draft
  | .error e => (set, .error e)

/-! ## Sequences -/

/-- How long a text stays that says nothing about it. -/
def readingTime (set : TrackSet) (text : Json) : Except Error Json := set.sync.pace.time text

/-- What the subtitles of a sequence have in common. -/
structure Sequence where
  duration : Json
  gap : Json
  style : Json
  animation : Json

/-- How long a text of a sequence stays. -/
def Sequence.length (sequence : Sequence) (set : TrackSet) (text : Json) : Except Error Json :=
  match sequence.duration with
  | .null => set.readingTime text
  | duration => .ok duration

/-- The text of a subtitle in a sequence, its lines broken if that is wanted. -/
def sequenceText (set : TrackSet) (text : Json) : Except Error Json :=
  if set.sync.autoBreak then do return .str (set.sync.brokenText (← text.asText)) else .ok text

/-- The draft of a text in a sequence, and its length. -/
def sequenceDraft (set : TrackSet) (sequence : Sequence) (start text : Json) :
    Except Error (Draft × Json) := do
  let length ← sequence.length set text
  let text ← set.sequenceText text
  let draft : Draft := {
    text, start, stop := ← start.add length, style := Style.coerce sequence.style
    position := .ok none
    animation := Animation.coerce sequence.animation Animation.defaultDuration
    metadata := .null }
  return (draft, length)

/-- Where the next subtitle of a sequence starts. -/
def Sequence.next (sequence : Sequence) (start length : Json) : Except Error Json := do
  start.add (← length.add sequence.gap)

/-- Inserts the texts of a sequence from a time on. -/
def insertTexts (language : String) (sequence : Sequence) :
    TrackSet → Json → List Json → TrackSet × Except Error (List Subtitle)
  | set, _, [] => (set, .ok [])
  | set, start, text :: rest =>
    match set.sequenceDraft sequence start text with
    | .error e => (set, .error e)
    | .ok (draft, length) =>
      match set.insert language draft with
      | (set, .error e) => (set, .error e)
      | (set, .ok subtitle) =>
        match sequence.next start length with
        | .error e => (set, .error e)
        | .ok next =>
          let (set, made) := insertTexts language sequence set next rest
          (set, made.map (subtitle :: ·))

omit [Rounding] in
/-- What a request for a sequence may hold. -/
def sequenceSignature : Signature := [
  .given "texts", .default "start_time" (.quantity (.finite 0)), .absent "duration", .absent "gap",
  .absent "style", .absent "animation"]

omit [Rounding] in
/-- The sequence that a request asks for; a gap that is missing is that of the settings. -/
def Sequence.ofRequest (set : TrackSet) (request : Request) : Sequence where
  duration := request.get "duration"
  gap := match request.get "gap" with
    | .null => .quantity set.sync.gap
    | gap => gap
  style := request.get "style"
  animation := request.get "animation"

/-- Inserts texts one behind the other. -/
def addSequence (set : TrackSet) (language : String) (given : List (String × Json)) :
    TrackSet × Except Error (List Subtitle) :=
  let asked : Except Error (Request × List Json) := do
    let request ← Request.complete sequenceSignature given
    return (request, ← (request.get "texts").elements)
  match asked with
  | .error e => (set, .error e)
  | .ok (request, texts) =>
    insertTexts language (.ofRequest set request) set (request.get "start_time") texts

/-! ## Imports -/

/-- Inserts subtitles one by one. -/
def insertAll (language : String) :
    TrackSet → List Subtitle → TrackSet × Except Error Unit
  | set, [] => (set, .ok ())
  | set, subtitle :: rest =>
    match set.insert language (.ofSubtitle subtitle) with
    | (set, .error e) => (set, .error e)
    | (set, .ok _) => insertAll language set rest

omit [Rounding] in
/-- The set with the track of a language emptied; its names are given out anew. -/
def clear (set : TrackSet) (language : String) : TrackSet :=
  set.modify language fun held ↦ { track := { held.track with entries := [] } }

/-- The set with a track for a language: a new one if there is none, and else the present one,
which is emptied if it is to be replaced. -/
def prepare (set : TrackSet) (language : String) (replace : Bool) : TrackSet × Except Error Unit :=
  match set.find? language with
  | some _ => (if replace then set.clear language else set, .ok ())
  | none =>
    let (set, made) := set.create (.str language) []
    (set, made.result.map fun _ ↦ ())

omit [Rounding] in
/-- What a request for an import may hold beside the document. -/
def importSignature : Signature := [.default "replace" (.bool false)]

/-- Inserts the subtitles of a document; says how many there are. -/
def importText (set : TrackSet) (language : String) (content format : Json)
    (options : Option ReadOptions) (given : List (String × Json)) : TrackSet × Reported Nat :=
  let asked : Reported (Bool × List Subtitle) := do
    let request ← (Request.complete importSignature given : Except Error Request)
    let subtitles ← Subtitle.parse content format .null options
    return ((request.get "replace").isTruthy, subtitles)
  match asked.result with
  | .error e => (set, ⟨.error e, asked.warnings⟩)
  | .ok (replace, subtitles) =>
    match set.prepare language replace with
    | (set, .error e) => (set, ⟨.error e, asked.warnings⟩)
    | (set, .ok ()) =>
      let (set, done) := insertAll language set subtitles
      (set, ⟨done.map fun _ ↦ subtitles.length, asked.warnings⟩)

end TrackSet
end Montage
