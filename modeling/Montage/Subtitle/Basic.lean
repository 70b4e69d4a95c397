import Montage.Animation.Basic
import Montage.Document.Decoder
import Montage.Position.Basic
import Montage.Style.Basic

/-!
# Subtitles

A subtitle is a text with a window of time, and possibly a look, a place and a motion.  A track is
the list of subtitles of one language.

The index of a subtitle says where it stands in its list; it is renumbered from one whenever the
list is put in order (`Subtitle.inOrder`).  What else is known about a subtitle is kept as metadata.

How a subtitle document is read and written is said by options.  They have documents of their own,
whose fields have their snake case name alone.
-/

set_option autoImplicit false

namespace Montage

/-- A text with the window of time in which it is read. -/
structure Subtitle where
  id : String := ""
  index : Int := 0
  text : String
  start : Quantity
  stop : Quantity
  style : Option Style := none
  position : Option Position := none
  animation : Option Animation := none
  confidence : Option Quantity := none
  metadata : List (String × Json) := []
  deriving Repr

/-- The subtitles of one language. -/
structure Track where
  id : String
  language : String
  languageName : Option String := none
  entries : List Subtitle := []
  defaultStyle : Option Style := none
  position : Option Position := none
  /-- Whether the track is shown, as it was last said. -/
  enabled : Json := .bool true
  priority : Int := 0
  deriving Repr

namespace Subtitle

/-- How long the subtitle stays. -/
def length [Rounding] (subtitle : Subtitle) : Quantity := subtitle.stop.sub subtitle.start

/-- The subtitle, moved in time. -/
def shifted [Rounding] (subtitle : Subtitle) (offset : Quantity) : Subtitle :=
  { subtitle with start := subtitle.start.add offset, stop := subtitle.stop.add offset }

/-- Whether there is nothing to read. -/
def isBlank (subtitle : Subtitle) : Bool := isAllBlank subtitle.text

/-! ## Documents -/

/-- A subtitle as a document. -/
def encode (subtitle : Subtitle) : Json := .obj <|
  always "id" (.str subtitle.id)
    ++ always "index" (.whole subtitle.index)
    ++ always "text" (.str subtitle.text)
    ++ always "startTime" (.quantity subtitle.start)
    ++ always "endTime" (.quantity subtitle.stop)
    ++ ifSome "style" subtitle.style Style.encode
    ++ ifSome "position" subtitle.position Position.encode
    ++ ifSome "animation" subtitle.animation Animation.encode
    ++ ifSome "confidence" subtitle.confidence .quantity
    ++ always "metadata" (Json.obj subtitle.metadata).finiteOnly

/-- Metadata from a document: any object. -/
def decodeMetadata : Decoder (List (String × Json))
  | .obj members => .ok members
  | _ => .reject

variable [Rounding]

/-- A subtitle from a document. -/
def decode : Decoder Subtitle := Decoder.object fun document ↦
  Subtitle.mk
    <$> Decoder.field "id" "" Decoder.text document
    <*> Decoder.field "index" 0 Decoder.whole document
    <*> Decoder.needed "text" Decoder.text document
    <*> Decoder.needed "startTime" Decoder.quantity document
    <*> Decoder.needed "endTime" Decoder.quantity document
    <*> Decoder.optField "style" Style.decode document
    <*> Decoder.optField "position" Position.decode document
    <*> Decoder.optField "animation" Animation.decode document
    <*> Decoder.optField "confidence" Decoder.quantity document
    <*> Decoder.field "metadata" [] decodeMetadata document

end Subtitle

namespace Track

/-- Whether the track is shown. -/
def isEnabled (track : Track) : Bool := track.enabled.isTruthy

/-- A track as a document. -/
def encode (track : Track) : Json := .obj <|
  always "id" (.str track.id)
    ++ always "language" (.str track.language)
    ++ ifSome "languageName" track.languageName .str
    ++ always "entries" (.arr (track.entries.map Subtitle.encode))
    ++ ifSome "defaultStyle" track.defaultStyle Style.encode
    ++ ifSome "position" track.position Position.encode
    ++ ifSome "enabled" (present? track.enabled) Json.finiteOnly
    ++ always "priority" (.whole track.priority)

/-- A track from a document. -/
def decode [Rounding] : Decoder Track := Decoder.object fun document ↦
  Track.mk
    <$> Decoder.needed "id" Decoder.text document
    <*> Decoder.needed "language" Decoder.text document
    <*> Decoder.optField "languageName" Decoder.text document
    <*> Decoder.field "entries" [] (Decoder.list Subtitle.decode) document
    <*> Decoder.optField "defaultStyle" Style.decode document
    <*> Decoder.optField "position" Position.decode document
    <*> Decoder.field "enabled" (.bool true) (fun value ↦ (Decoder.flag value).map .bool) document
    <*> Decoder.field "priority" 0 Decoder.whole document

end Track

/-! ## Order

Subtitles stand in the order of their starts; those that start together keep the order in which
they came.  The order of starts is total as long as every start is a time.  A subtitle whose start
is undefined is neither before nor after any other: lists that hold one are arranged by
bisection, each subtitle in turn going where halving the part that is already arranged leads. -/

/-- The place among the items from `low` to `high` where something belongs, if `isBehind` says of
an item whether it belongs behind that something. -/
def bisect {α : Type} (isBehind : α → Bool) (items : List α) (low high : Nat) : Nat :=
  if low < high then
    let middle := low + (high - low) / 2
    if items[middle]?.any isBehind then bisect isBehind items low middle
    else bisect isBehind items (middle + 1) high
  else low
termination_by high - low

/-- Puts something at a place of a list. -/
def insertAt {α : Type} (place : Nat) (a : α) (items : List α) : List α :=
  items.take place ++ a :: items.drop place

/-- The items in front that follow each other as `follows` wants it, each looked at together with
the one before it, and the rest. -/
def takeRun {α : Type} (follows : α → α → Bool) (last : α) : List α → List α × List α
  | [] => ([], [])
  | a :: rest =>
    if follows last a then
      let (run, left) := takeRun follows a rest
      (a :: run, left)
    else ([], a :: rest)

namespace Subtitle

/-- Whether a subtitle starts before another one. -/
def isBefore (a b : Subtitle) : Bool := a.start.lt b.start

/-- Puts a subtitle behind those that do not start after it. -/
def insertByBisection (arranged : List Subtitle) (subtitle : Subtitle) : List Subtitle :=
  insertAt (bisect subtitle.isBefore arranged 0 arranged.length) subtitle arranged

/-- Arranges subtitles of which some have no start: a falling run in front is turned round, a
rising one is kept, and what comes after goes in by bisection. -/
def arrangedByBisection : List Subtitle → List Subtitle
  | a :: b :: rest =>
    if b.isBefore a then
      let (run, left) := takeRun (fun last next ↦ next.isBefore last) b rest
      left.foldl insertByBisection (a :: b :: run).reverse
    else
      let (run, left) := takeRun (fun last next ↦ !next.isBefore last) b rest
      left.foldl insertByBisection (a :: b :: run)
  | few => few

/-- Subtitles in the order of their starts. -/
def sorted (subtitles : List Subtitle) : List Subtitle :=
  if subtitles.any fun subtitle ↦ subtitle.start = .undefined then arrangedByBisection subtitles
  else subtitles.mergeSort fun a b ↦ !b.isBefore a

/-- Subtitles with indices from one in their present order. -/
def numbered (subtitles : List Subtitle) : List Subtitle :=
  subtitles.mapIdx fun place subtitle ↦ { subtitle with index := (place : Int) + 1 }

/-- Subtitles in the order of their starts, with indices from one. -/
def inOrder (subtitles : List Subtitle) : List Subtitle := numbered (sorted subtitles)

/-- Every subtitle under a name that is made of a word and its index. -/
def named (word : String) (subtitles : List Subtitle) : List Subtitle :=
  subtitles.map fun subtitle ↦ { subtitle with id := word ++ "_" ++ toString subtitle.index }

end Subtitle

/-- The track with its subtitles in order. -/
def Track.sorted (track : Track) : Track :=
  { track with entries := Subtitle.inOrder track.entries }

/-! ## Options of readers -/

/-- How a subtitle document is read. -/
structure ReadOptions where
  /-- Whether a malformed part fails the reading; otherwise it is skipped. -/
  strict : Bool := false
  /-- Whether inline tags become a style. -/
  parseStyles : Bool := true
  /-- Whether subtitles without text are kept. -/
  preserveEmpty : Bool := false
  deriving DecidableEq, Repr

namespace ReadOptions

/-- Read options from a document. -/
def decode : Decoder ReadOptions := Decoder.object fun document ↦
  ReadOptions.mk
    <$> Decoder.plainField "strict" false Decoder.flag document
    <*> Decoder.plainField "parseStyles" true Decoder.flag document
    <*> Decoder.plainField "preserveEmpty" false Decoder.flag document

/-- Read options as a document. -/
def encode (options : ReadOptions) : Json := .obj [
  ("strict", .bool options.strict), ("parse_styles", .bool options.parseStyles),
  ("preserve_empty", .bool options.preserveEmpty)]

end ReadOptions

/-! ## Options of writers -/

/-- What ends a line. -/
inductive LineEnding where
  | lf
  | crlf
  deriving DecidableEq, Repr

namespace LineEnding

/-- The characters that end a line. -/
def text : LineEnding → String
  | lf => "\n"
  | crlf => "\r\n"

/-- The line ending that consists of the given characters. -/
def ofText? : String → Option LineEnding
  | "\n" => some lf
  | "\r\n" => some crlf
  | _ => none

end LineEnding

/-- How a subtitle document is written. -/
structure WriteOptions where
  /-- Whether styles become inline tags. -/
  includeStyles : Bool := true
  lineEnding : LineEnding := .lf
  /-- The length to which lines are wrapped; zero for no wrapping. -/
  maxLineLength : Int := 0
  /-- Whether the document opens with a byte order mark. -/
  addMark : Bool := false
  deriving DecidableEq, Repr

namespace WriteOptions

/-- Write options from a document. -/
def decode : Decoder WriteOptions := Decoder.object fun document ↦
  WriteOptions.mk
    <$> Decoder.plainField "includeStyles" true Decoder.flag document
    <*> Decoder.plainField "lineEnding" .lf (Decoder.name LineEnding.ofText?) document
    <*> Decoder.plainField "maxLineLength" 0 (Decoder.whole.such fun n ↦ 0 ≤ n) document
    <*> Decoder.plainField "addBom" false Decoder.flag document

/-- Write options as a document. -/
def encode (options : WriteOptions) : Json := .obj [
  ("include_styles", .bool options.includeStyles), ("line_ending", .str options.lineEnding.text),
  ("max_line_length", .whole options.maxLineLength), ("add_bom", .bool options.addMark)]

/-- The byte order mark that a document opens with, if it is asked for. -/
def opening (options : WriteOptions) : String :=
  if options.addMark then String.singleton '\uFEFF' else ""

end WriteOptions
end Montage
