import Montage.Json.Printer
import Montage.Json.Reader
import Montage.Subtitle.Basic
import Montage.Subtitle.Script.Reader
import Montage.Subtitle.Script.Writer
import Montage.Subtitle.Vtt
import Montage.Text.Split

/-!
# Formats of subtitles

Subtitles are read from and written to four formats.  The format of a document may be given by
its name; otherwise it follows from the name of its file, or else from what the document looks
like.

A document in JSON holds a list of subtitles, or an object with such a list under `entries` or
under `captions`.  Names and metadata are kept as they are; indices are renumbered.
-/

set_option autoImplicit false

namespace Montage

/-! ## Subtitles in JSON -/

namespace Subtitle

/-- The list of a document: itself, or that of an object; an object without one has none. -/
def listOf : Json → Json
  | .obj members =>
    ((Json.lookup? "entries" members).or (Json.lookup? "captions" members)).getD (.arr [])
  | value => value

/-- Reads a text as JSON; a text that is none is not a subtitle document. -/
def readJson (content : String) : Except Error Json :=
  match Json.read (normalizeText content.toList) with
  | .error .notJson => .error (.captionJson none)
  | result => result

/-- The subtitles of a list of documents. -/
def ofList [Rounding] (document : Json) : Except Error (List Subtitle) :=
  match Decoder.list decode document with
  | .ok subtitles => .ok subtitles
  | .failed paths => .error (.captionJson (some (Checked.report paths)))

/-- Reads a document.  Without options, subtitles without text are kept. -/
def ofText [Rounding] (options : Option ReadOptions) (content : String) :
    Except Error (List Subtitle) := do
  let subtitles ← ofList (listOf (← readJson content))
  let keepsEmpty := (options.map (·.preserveEmpty)).getD true
  return inOrder (if keepsEmpty then subtitles else subtitles.filter fun s ↦ !s.isBlank)

/-- The document of a list of subtitles. -/
def document (subtitles : List Subtitle) : Json :=
  .obj [("entries", .arr ((sorted subtitles).map encode))]

/-- Writes a document. -/
def toText (indent : Option String) (subtitles : List Subtitle) : String :=
  (document subtitles).text (.captions indent)

end Subtitle

/-! ## Formats -/

/-- A format of subtitle documents. -/
inductive SubtitleFormat where
  | srt
  | vtt
  | ass
  | json
  deriving DecidableEq, Repr

namespace SubtitleFormat

/-- The name of a format. -/
def name : SubtitleFormat → String
  | srt => "srt"
  | vtt => "vtt"
  | ass => "ass"
  | json => "json"

/-- The format of a name in small letters. -/
def ofName? : String → Option SubtitleFormat
  | "srt" => some srt
  | "vtt" => some vtt
  | "ass" | "ssa" => some ass
  | "json" => some json
  | _ => none

/-- The format that a request names, whatever its letter case, possibly as a file ending. -/
def ofRequest (value : Json) : Except Error SubtitleFormat :=
  let name := (lowered (trim value.shown.toList)).dropWhile (· == '.')
  match ofName? (String.ofList name) with
  | some format => .ok format
  | none => .error (.unsupportedFormat value.inspect)

/-! ## Detection -/

/-- The ending of a file name behind its last point; points that the name begins with do not
count. -/
def ending (path : String) : List Char :=
  let name := (path.toList.reverse.takeWhile (· ≠ '/')).reverse
  let body := name.dropWhile (· == '.')
  if body.contains '.' then (body.reverse.takeWhile (· ≠ '.')).reverse else []

/-- The format of a file name with a known ending. -/
def ofPath? (path : String) : Option SubtitleFormat :=
  ofName? (String.ofList (lowered (ending path)))

/-- The format of a line with a window of time: a comma is that of SRT. -/
def ofLine? (line : List Char) : Option SubtitleFormat :=
  if (TimeRange.ofLine? (trim line)).isSome then some (if line.contains ',' then srt else vtt)
  else none

/-- The format that a document looks like. -/
def ofContent? (content : String) : Option SubtitleFormat :=
  let text := trimFront (normalizeText content.toList)
  let small := lowered text
  if "WEBVTT".toList.isPrefixOf text then some vtt
  else if occursIn "[script info]".toList (small.take 200) || occursIn "[events]".toList small then
    some ass
  else if text.head? == some '\x7b' || text.head? == some '[' then some json
  else (linesOf text).findSome? ofLine?

/-- The format that a document looks like, if it looks like one. -/
def detect (content : String) : Except Error SubtitleFormat :=
  match ofContent? content with
  | some format => .ok format
  | none => .error .unknownFormat

/-- The format of a document: that of its file's ending if it is a known one, or else the one that
it looks like.  An empty path is none. -/
def detectFor (content path : Json) : Except Error SubtitleFormat := do
  let known ← if path.isTruthy then (ofPath? <$> path.asSubject) else .ok none
  match known with
  | some format => return format
  | none => detect (← content.asText)

/-- The format that a request names, or else the one of the document. -/
def given (request content path : Json) : Except Error SubtitleFormat :=
  match request with
  | .null => detectFor content path
  | value => ofRequest value

/-! ## Reading and writing -/

variable [Rounding]

/-- Reads a document of the format.  Without options the usual ones count. -/
def read (format : SubtitleFormat) (options : Option ReadOptions) (content : String) :
    Reported (List Subtitle) :=
  match format with
  | srt => Srt.read (options.getD {}) content
  | vtt => Vtt.read (options.getD {}) content
  | ass => Script.read (options.getD {}) content
  | json => Reported.ofExcept (Subtitle.ofText options content)

/-- Writes a document of the format. -/
def write (format : SubtitleFormat) (options : Option WriteOptions) (heading : Script.Heading)
    (subtitles : List Subtitle) : Except Error String :=
  match format with
  | srt => Srt.write (options.getD {}) subtitles
  | vtt => Vtt.write (options.getD {}) subtitles
  | ass => do
    let options := options.getD {}
    return options.opening ++ (← Script.write heading options.lineEnding subtitles)
  | json => .ok (Subtitle.toText (some "  ") subtitles)

end SubtitleFormat

namespace Subtitle

variable [Rounding]

/-- Reads a document in a format that may be named. -/
def parse (content format path : Json) (options : Option ReadOptions) :
    Reported (List Subtitle) := do
  let format ← (SubtitleFormat.given format content path : Except Error SubtitleFormat)
  format.read options (← (content.asText : Except Error String))

/-- Turns a document into one of another format.  The format to write is looked at last. -/
def convert (content target source : Json) (readOptions : Option ReadOptions)
    (writeOptions : Option WriteOptions) : Reported String := do
  let subtitles ← parse content source .null readOptions
  let format ← (SubtitleFormat.ofRequest target : Except Error SubtitleFormat)
  let text ← (format.write writeOptions {} subtitles : Except Error String)
  return text

omit [Rounding] in
/-- What a request for a script may say about it. -/
def headingSignature : Signature := [
  .default "width" (.whole 1920), .default "height" (.whole 1080),
  .default "title" (.str "mediasdk captions"), .absent "default_style"]

/-- Writes subtitles in a format that a request names.  What is said about a script counts for
scripts alone. -/
def generate (subtitles : List Subtitle) (format : Json) (options : Option WriteOptions)
    (given : List (String × Json)) : Except Error String := do
  match ← SubtitleFormat.ofRequest format with
  | .ass =>
    let request ← Request.complete headingSignature given
    let style ← match request.get "default_style" with
      | .null => pure none
      | style => do pure (some (← (Style.decode style).toExcept))
    let heading : Script.Heading := {
      title := (request.get "title").shown, width := request.get "width"
      height := request.get "height", style }
    SubtitleFormat.ass.write options heading subtitles
  | format => format.write options {} subtitles

end Subtitle
end Montage
