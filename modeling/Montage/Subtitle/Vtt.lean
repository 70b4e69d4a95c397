import Montage.Subtitle.Srt

/-!
# WebVTT documents

A document opens with a header block; the others are cues, or notes, style sheets and regions,
which are passed over.  A cue may have a line with a name before its window of time, settings
behind the window, and tags of its own in the text, of which only the name of a voice is kept.
Colors have no plain form in this format and are not written.
-/

set_option autoImplicit false

namespace Montage
namespace Vtt

/-! ## Tags -/

/-- The voice that a tag names in front of a text. -/
def voice? (s : List Char) : Option String := do
  let rest ← afterWord? ['<', 'v'] s
  let named := match rest with
    | '.' :: more => more.dropWhile fun c ↦ !isBlank c && c != '>'
    | _ => rest
  let blanks := named.takeWhile isBlank
  let name := named.drop blanks.length
  let body := name.takeWhile (· ≠ '>')
  match name.drop body.length with
  | '>' :: _ =>
    -- A name of nothing but blanks needs two of them: one is what sets it apart.
    if blanks.isEmpty || (body.isEmpty && blanks.length < 2) then none
    else some (String.ofList (trim body))
  | _ => none

/-- The length of what ends a tag behind its name: a point or blank with anything behind it, or
nothing, and then the bracket. -/
def tagEnd : List Char → Nat
  | [] => 0
  | c :: rest =>
    if c = '>' then 1
    else if c = '.' || isBlank c then
      match lengthThrough '>' rest with
      | 0 => 0
      | n + 1 => n + 2
    else 0

/-- The names of the tags that are dropped. -/
def cueTags : List String := ["v", "c", "lang", "ruby", "rt"]

/-- The length of a tag with one of those names in front of a text. -/
def cueTag (s : List Char) : Nat :=
  let named (opening : List Char) (name : String) : Option Nat := do
    let rest ← afterWord? (opening ++ name.toList) s
    match tagEnd rest with
    | 0 => none
    | n + 1 => some (consumed s rest + (n + 1))
  ((cueTags.findSome? (named ['<', '/'])).or (cueTags.findSome? (named ['<']))).getD 0

/-- Whether a character may stand in the seconds of a time between brackets. -/
def isTimeChar (c : Char) : Bool := isDecimal c || c == '.' || c == ':'

/-- The length of a time between brackets in front of a text. -/
def timeTag : List Char → Nat
  | '<' :: s =>
    let first := s.takeWhile isDecimal
    match s.drop first.length with
    | ':' :: a :: b :: mark :: more =>
      let last := more.takeWhile isTimeChar
      match more.drop last.length with
      | '>' :: _ =>
        if !first.isEmpty && isDecimal a && isDecimal b && (mark == ':' || mark == '.')
          && !last.isEmpty then first.length + last.length + 6 else 0
      | _ => 0
    | _ => 0
  | _ => 0

/-- The text of a cue without the tags of this format. -/
def withoutTags (s : List Char) : List Char := removeMatches timeTag (removeMatches cueTag s)

variable [Rounding]

/-! ## Reading -/

omit [Rounding] in
/-- Whether a block is no cue. -/
def isPassedOver (block : List Char) : Bool :=
  ["NOTE", "STYLE", "REGION"].any fun word ↦ word.toList.isPrefixOf block

omit [Rounding] in
/-- The name of a cue, if its first line is one, and the other lines. -/
def takeName : List (List Char) → String × List (List Char)
  | [] => ("", [])
  | line :: lines =>
    if occursIn "-->".toList line then ("", line :: lines)
    else (String.ofList (trim line), lines)

omit [Rounding] in
/-- What is known about a cue beside its text. -/
def metadataOf (settings body : List Char) : List (String × Json) :=
  let settings := String.ofList (trim settings)
  (if settings.isEmpty then [] else [("settings", .str settings)])
    ++ ifSome "voice" (firstMatch? voice? body) .str

/-- The subtitle of a cue. -/
def subtitleOf (options : ReadOptions) (name : String) (range : TimeRange)
    (body : List (List Char)) : Except Error Subtitle := do
  let start ← range.start.seconds?
  let stop ← range.stop.seconds?
  let spoken := withoutTags (bodyText body)
  let (text, style) := if options.parseStyles then Markup.read spoken else (spoken, none)
  return {
    id := name, text := String.ofList text, start, stop, style
    metadata := metadataOf range.settings (bodyText body) }

/-- What a block turns out to be. -/
def piece (options : ReadOptions) (block : List Char) : Except Error Piece :=
  if isPassedOver block then .ok .nothing
  else match takeName (linesOf block) with
    | (name, timing :: body) =>
      match TimeRange.ofLine? timing with
      | some range => (subtitleOf options name range body).map (Piece.ofSubtitle options)
      | none => .ok .malformed
    | (_, []) => .ok .malformed

omit [Rounding] in
/-- Whether a block is the header of a document. -/
def isHeader (block : List Char) : Bool := "WEBVTT".toList.isPrefixOf block

/-- The cues, numbered from one. -/
def cues (options : ReadOptions) (blocks : List (List Char)) : List LabelledPiece :=
  blocks.mapIdx fun place block ↦ ⟨.vttCue (place + 1), block, piece options block⟩

/-- The pieces of a document: the header, which is malformed if the first block is none, and the
cues. -/
def pieces (options : ReadOptions) (content : String) : List LabelledPiece :=
  match blocksOf content with
  | [] => []
  | first :: rest =>
    if isHeader first then cues options rest
    else ⟨.vttHeader, first, .ok .malformed⟩ :: cues options (first :: rest)

omit [Rounding] in
/-- The subtitle under the name of its cue, or under its index if the cue has no name. -/
def withName (subtitle : Subtitle) : Subtitle :=
  if subtitle.id.isEmpty then { subtitle with id := "vtt_" ++ toString subtitle.index }
  else subtitle

/-- Reads a document. -/
def read (options : ReadOptions) (content : String) : Reported (List Subtitle) := do
  let subtitles ← collect options.strict (pieces options content)
  return (Subtitle.inOrder subtitles).map withName

/-! ## Writing -/

omit [Rounding] in
/-- The style of a subtitle as far as this format can write it. -/
def plainStyle (style : Option Style) : Option Style :=
  style.map fun style ↦ { style with color := none }

omit [Rounding] in
/-- The settings of a cue with a blank before them. -/
def settingsOf (subtitle : Subtitle) : String :=
  match Json.lookup? "settings" subtitle.metadata with
  | some settings => if settings.isTruthy then " " ++ settings.shown else ""
  | none => ""

/-- The cue of a subtitle under a number. -/
def cue (options : WriteOptions) (number : Nat) (subtitle : Subtitle) : Except Error String := do
  let eol := options.lineEnding.text
  let text := Srt.textOf options { subtitle with style := plainStyle subtitle.style }
  let window ← TimeNotation.vtt.window subtitle.start subtitle.stop
  return toString number ++ eol ++ window ++ settingsOf subtitle ++ eol ++ text ++ eol ++ eol

/-- The cues of subtitles from a number on. -/
def cueTexts (options : WriteOptions) : Nat → List Subtitle → Except Error (List String)
  | _, [] => .ok []
  | number, subtitle :: rest => do
    let first ← cue options number subtitle
    return first :: (← cueTexts options (number + 1) rest)

/-- Writes a document. -/
def write (options : WriteOptions) (subtitles : List Subtitle) : Except Error String := do
  let eol := options.lineEnding.text
  let cues ← cueTexts options 1 (Subtitle.sorted subtitles)
  return options.opening ++ "WEBVTT" ++ eol ++ eol ++ String.join cues

end Vtt
end Montage
